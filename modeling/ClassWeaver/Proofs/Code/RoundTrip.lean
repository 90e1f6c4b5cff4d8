import ClassWeaver.Proofs.Code.Relocation

/-!
Decoding undoes assembling.

An instruction is placed by giving it its own offset as origin and its targets their new offsets; an
`ldc` whose index has outgrown one byte becomes an `ldc_w`. `reads_encode` says that the bytes of
one instruction are read as the placed instruction, whatever follows them, and `decode_assemble`
that an assembled body is read as its placed instructions. So no distance was cut short on the way.
-/

set_option autoImplicit false
set_option relaxedAutoImplicit false

namespace ClassWeaver.Code

open ClassWeaver.Parser

/-! ### Placed instructions -/

/-- The operand with every target taken to its destination. -/
def Operand.retarget (destination : Nat → Nat) : Operand → Operand
  | .branch target => .branch (destination target)
  | .tableSwitch otherwise low high targets =>
    .tableSwitch (destination otherwise) low high (targets.map destination)
  | .lookupSwitch otherwise rows =>
    .lookupSwitch (destination otherwise) (rows.map fun (key, target) ↦ (key, destination target))
  | operand => operand

namespace Instruction

/-- The opcode under which the instruction is written: an `ldc` of a wide index is an `ldc_w`. -/
def writtenOpcode (instruction : Instruction) : Opcode :=
  match instruction.operand with
  | .constant index =>
    if instruction.opcode = .ldc ∧ narrowIndex < index then .ldcW else instruction.opcode
  | _ => instruction.opcode

/-- One byte is enough for the index behind an `ldc` that stays one. -/
theorem writtenOpcode_of_narrow {instruction : Instruction}
    (h : instruction.opcode = .ldc →
      ∃ index ≤ narrowIndex, instruction.operand = .constant index) :
    instruction.writtenOpcode = instruction.opcode := by
  rw [writtenOpcode]
  split
  · rename_i index hoperand
    refine if_neg fun hwide ↦ ?_
    obtain ⟨narrow, hnarrow, hsame⟩ := h hwide.1
    obtain rfl : index = narrow := Operand.constant.inj (hoperand.symm.trans hsame)
    exact absurd hwide.2 (UInt16.not_lt.mpr hnarrow)
  · rfl

theorem writtenOpcode_of_ne {instruction : Instruction} (h : instruction.opcode ≠ .ldc) :
    instruction.writtenOpcode = instruction.opcode :=
  writtenOpcode_of_narrow fun hldc ↦ absurd hldc h

/-- The instruction as it stands at `offset` of the new body. -/
def placed (destination : Nat → Nat) (offset : Nat) (instruction : Instruction) : Instruction :=
  ⟨instruction.writtenOpcode, instruction.operand.retarget destination, some offset⟩

end Instruction

/-- The new offset for an old one that has one. -/
def Relocation.destination (relocation : Relocation) (offset : Nat) : Nat :=
  match relocation.map offset with
  | .ok new => new
  | .error _ => 0

theorem Relocation.destination_of_map {relocation : Relocation} {offset new : Nat}
    (h : relocation.map offset = .ok new) : relocation.destination offset = new := by
  rw [destination, h]

/-! ### Numbers in two widths -/

theorem toUInt16_toUInt8 {index : UInt16} (h : index ≤ narrowIndex) :
    index.toUInt8.toUInt16 = index := by
  have hle : index.toNat ≤ 255 := UInt16.le_iff_toNat_le.mp h
  apply UInt16.toNat_inj.mp
  rw [UInt8.toNat_toUInt16, UInt16.toNat_toUInt8]
  omega

theorem toInt16_toInt8 {amount : Int16} (h : fitsByte amount.toInt = true) :
    amount.toInt8.toUInt8.toInt8.toInt16 = amount := by
  simp only [fitsByte, Bool.and_eq_true, decide_eq_true_eq] at h
  rw [Int8.toInt8_toUInt8]
  apply Int16.toInt_inj.mp
  rw [Int8.toInt_toInt16, Int16.toInt_toInt8]
  exact Int.bmod_eq_of_le (by omega) (by omega)

/-! ### Reading one instruction -/

namespace Reading

variable {offset new : Nat}

theorem reads_next (offset : Nat) {opcode : Opcode} {form : Form} {others : Bytes}
    {reading : Reading} (hform : opcode.form? = some form)
    (h : Reads (behind offset opcode form) others reading) :
    Reads (next offset) (opcode :: others) reading := by
  rw [next, ← List.singleton_append]
  refine (reads_u1 _ opcode).bind ?_
  rw [hform]
  exact h

theorem reads_i4 (value : Int32) : Reads (i4 offset) (bytes32 value.toUInt32) value := by
  have h := (reads_u4 (Fault.truncated offset) value.toUInt32).map UInt32.toInt32
  rwa [Int32.toInt32_toUInt32] at h

theorem jumpTarget_distance (hnew : new ≤ maxCodeLength) :
    jumpTarget offset ((new : Int) - offset) = .ok new := by
  simp only [maxCodeLength] at hnew
  rw [jumpTarget, if_pos (by omega)]
  congr 1
  omega

/-- A distance inside a body survives its four bytes. -/
theorem reads_farTarget (hoffset : offset ≤ maxCodeLength) (hnew : new ≤ maxCodeLength) :
    Reads (farTarget offset) (signed32 ((new : Int) - offset)) new := by
  have hexact : (Int32.ofInt ((new : Int) - offset)).toInt = (new : Int) - offset := by
    simp only [maxCodeLength] at hoffset hnew
    exact Int32.toInt_ofInt_of_le (by omega) (by omega)
  refine (reads_i4 _).finish (reads_lift ?_)
  rw [hexact]
  exact jumpTarget_distance hnew

/-- A distance that fits into two bytes survives them. -/
theorem reads_nearTarget (hfits : fitsShort ((new : Int) - offset) = true)
    (hnew : new ≤ maxCodeLength) {opcode : Opcode} :
    Reads (behind offset opcode .branch) (signed16 ((new : Int) - offset))
      ⟨opcode, .branch new, 3⟩ := by
  have hexact : (Int16.ofInt ((new : Int) - offset)).toUInt16.toInt16.toInt =
      (new : Int) - offset := by
    simp only [fitsShort, Bool.and_eq_true, decide_eq_true_eq] at hfits
    rw [Int16.toInt16_toUInt16]
    exact Int16.toInt_ofInt_of_le (by omega) (by omega)
  refine (reads_u2 _ _).finish ((reads_lift ?_).map _)
  rw [hexact]
  exact jumpTarget_distance hnew

theorem reads_require {count : Nat} {front : Bytes} {reading : Reading}
    {next : Unit → Reader Reading} (hcount : count ≤ front.length)
    (h : Reads (next ()) front reading) : Reads (require offset count >>= next) front reading := by
  intro rest
  refine bind_eq_ok.mpr ⟨(), front ++ rest, ?_, h rest⟩
  rw [require, if_pos]
  rw [List.length_take, List.length_append]
  omega

end Reading

theorem length_signed32 (value : Int) : (signed32 value).length = 4 :=
  rfl

/-- Rows of one width, written one after the other. -/
theorem length_flatten_of_length {rows : List Bytes} {width : Nat}
    (h : ∀ row ∈ rows, row.length = width) : rows.flatten.length = width * rows.length := by
  induction rows with
  | nil => rfl
  | cons row rest ih =>
    obtain ⟨hrow, hrest⟩ := List.forall_mem_cons.mp h
    rw [List.flatten_cons, List.length_append, List.length_cons, hrow, ih hrest, Nat.mul_succ,
      Nat.add_comm]

section Encode

variable {relocation : Relocation} {offset : Nat} {bytes : Bytes}

theorem distance_eq_ok {target : Nat} {distance : Int}
    (h : relocation.distance offset target = .ok distance) :
    relocation.map target = .ok (relocation.destination target) ∧
      distance = (relocation.destination target : Int) - offset := by
  obtain ⟨new, hnew, h⟩ := except_bind_eq_ok.mp h
  cases h
  rw [Relocation.destination_of_map hnew]
  exact ⟨hnew, rfl⟩

/-- The offsets of a body and the places that its offsets go to are within the body. -/
structure Within (relocation : Relocation) (offset : Nat) : Prop where
  offset_le : offset ≤ maxCodeLength
  map_le : ∀ old new, relocation.map old = .ok new → new ≤ maxCodeLength

theorem reads_tableSwitch {opcode : Opcode} {otherwise : Nat} {low high : Int32}
    {targets : List Nat} {origin : Option Nat} (hwithin : Within relocation offset)
    (hform : opcode.form? = some .tableSwitch) (hle : low.toInt ≤ high.toInt)
    (hcount : (targets.length : Int) = high.toInt - low.toInt + 1)
    (h : Instruction.encode relocation offset
      ⟨opcode, .tableSwitch otherwise low high targets, origin⟩ = .ok bytes) :
    Reads (Reading.next offset) bytes
      ⟨opcode, .tableSwitch (relocation.destination otherwise) low high
        (targets.map relocation.destination),
        1 + switchPadding offset + 12 + 4 * targets.length⟩ := by
  simp only [Instruction.encode] at h
  obtain ⟨first, hfirst, h⟩ := except_bind_eq_ok.mp h
  obtain ⟨distances, hdistances, h⟩ := except_bind_eq_ok.mp h
  cases h
  obtain ⟨hotherwise, rfl⟩ := distance_eq_ok hfirst
  have hrows := forall₂_of_mapM_eq_ok hdistances
  have hread : List.Forall₂ (fun front value ↦ Reads (Reading.farTarget offset) front value)
      (distances.map signed32) (targets.map relocation.destination) := by
    rw [List.forall₂_map_left_iff, List.forall₂_map_right_iff]
    refine hrows.flip.imp fun distance target hdistance ↦ ?_
    obtain ⟨hmap, rfl⟩ := distance_eq_ok hdistance
    exact Reading.reads_farTarget hwithin.offset_le (hwithin.map_le _ _ hmap)
  have hlength : (high.toInt - low.toInt + 1).toNat = targets.length := by omega
  simp only [List.append_assoc, List.cons_append]
  refine Reading.reads_next offset hform ?_
  refine (reads_take _ (by rw [List.length_replicate])).bind ?_
  refine (Reading.reads_farTarget hwithin.offset_le (hwithin.map_le _ _ hotherwise)).bind ?_
  refine (Reading.reads_i4 low).bind ((Reading.reads_i4 high).bind ?_)
  simp only [if_neg (Int.not_lt.mpr hle), hlength]
  refine Reading.reads_require (Nat.le_of_eq ?_) ((reads_times hread (List.length_map _)).map _)
  rw [List.flatMap_def,
    length_flatten_of_length (List.forall_mem_map.mpr fun distance _ ↦ length_signed32 distance),
    List.length_map, hrows.length_eq]

/-- A row of a lookup switch is read as its key and the destination of its target. -/
theorem reads_lookupRow {row : Int32 × Nat} (hwithin : Within relocation offset)
    (h : encodeRow relocation offset row = .ok bytes) :
    Reads (Reading.lookupRow offset) bytes (row.1, relocation.destination row.2) ∧
      bytes.length = 8 := by
  obtain ⟨distance, hdistance, h⟩ := except_bind_eq_ok.mp h
  cases h
  obtain ⟨hmap, rfl⟩ := distance_eq_ok hdistance
  have htarget := Reading.reads_farTarget hwithin.offset_le (hwithin.map_le _ _ hmap)
  exact ⟨(Reading.reads_i4 row.1).bind (htarget.map _), rfl⟩

theorem reads_lookupSwitch {opcode : Opcode} {otherwise : Nat} {rows : List (Int32 × Nat)}
    {origin : Option Nat} (hwithin : Within relocation offset)
    (hform : opcode.form? = some .lookupSwitch) (hcount : 8 * rows.length ≤ maxCodeLength)
    (h : Instruction.encode relocation offset
      ⟨opcode, .lookupSwitch otherwise rows, origin⟩ = .ok bytes) :
    Reads (Reading.next offset) bytes
      ⟨opcode, .lookupSwitch (relocation.destination otherwise)
        (rows.map fun (key, target) ↦ (key, relocation.destination target)),
        1 + switchPadding offset + 8 + 8 * rows.length⟩ := by
  simp only [Instruction.encode] at h
  obtain ⟨first, hfirst, h⟩ := except_bind_eq_ok.mp h
  obtain ⟨encoded, hencoded, h⟩ := except_bind_eq_ok.mp h
  cases h
  obtain ⟨hotherwise, rfl⟩ := distance_eq_ok hfirst
  have hrows := (forall₂_of_mapM_eq_ok hencoded).flip.imp fun bytes row hrow ↦
    reads_lookupRow hwithin hrow
  have hread : List.Forall₂ (fun front value ↦ Reads (Reading.lookupRow offset) front value)
      encoded (rows.map fun (key, target) ↦ (key, relocation.destination target)) :=
    List.forall₂_map_right_iff.mpr (hrows.imp fun _ _ hrow ↦ hrow.1)
  have hdeclared : (UInt32.ofNat rows.length).toInt32.toInt = rows.length := by
    simp only [maxCodeLength] at hcount
    rw [UInt32.toInt32_ofNat']
    exact Int32.toInt_ofNat_of_lt (by omega)
  simp only [List.append_assoc, List.cons_append]
  refine Reading.reads_next offset hform ?_
  refine (reads_take _ (by rw [List.length_replicate])).bind ?_
  refine (Reading.reads_farTarget hwithin.offset_le (hwithin.map_le _ _ hotherwise)).bind ?_
  refine ((reads_u4 _ _).map _).bind ?_
  simp only [hdeclared, if_neg (Int.not_lt.mpr (Int.natCast_nonneg _)), Int.toNat_natCast]
  refine Reading.reads_require (Nat.le_of_eq ?_) ((reads_times hread (List.length_map _)).map _)
  have hlength : ∀ row ∈ encoded, row.length = 8 := by
    intro row hmem
    obtain ⟨index, hindex, rfl⟩ := List.mem_iff_getElem.mp hmem
    exact (hrows.get hindex (hrows.length_eq ▸ hindex)).2
  rw [length_flatten_of_length hlength, hrows.length_eq]

/-- The constant of an `ldc` is read in one byte or, if it does not fit, by an `ldc_w`. -/
theorem reads_narrowConstant {index : UInt16} {origin : Option Nat}
    (h : Instruction.encode relocation offset ⟨.ldc, .constant index, origin⟩ = .ok bytes) :
    Reads (Reading.next offset) bytes
      ⟨Instruction.writtenOpcode ⟨.ldc, .constant index, origin⟩, .constant index,
        Instruction.size ⟨.ldc, .constant index, origin⟩ offset⟩ := by
  simp only [Instruction.encode, Instruction.writtenOpcode, Instruction.size, true_and,
    if_true] at h ⊢
  by_cases hnarrow : index ≤ narrowIndex
  · rw [if_pos hnarrow] at h ⊢
    rw [if_neg (UInt16.not_lt.mpr hnarrow)]
    cases h
    have hread := Reading.reads_next offset (rfl : Opcode.form? .ldc = some .narrowConstant)
      ((reads_u1 _ index.toUInt8).map _)
    rwa [toUInt16_toUInt8 hnarrow] at hread
  · rw [if_neg hnarrow] at h ⊢
    rw [if_pos (UInt16.not_le.mp hnarrow)]
    cases h
    exact Reading.reads_next offset rfl ((reads_u2 _ index).map _)

/-- The index of a local variable is read in one byte or behind a `wide`. -/
theorem reads_slot {opcode : Opcode} {index : UInt16} {origin : Option Nat}
    (hform : opcode.form? = some .slot)
    (h : Instruction.encode relocation offset ⟨opcode, .slot index, origin⟩ = .ok bytes) :
    Reads (Reading.next offset) bytes
      ⟨opcode, .slot index, Instruction.size ⟨opcode, .slot index, origin⟩ offset⟩ := by
  simp only [Instruction.encode, Instruction.size] at h ⊢
  by_cases hlarge : narrowIndex < index
  · rw [if_pos hlarge] at h ⊢
    cases h
    refine Reading.reads_next offset (rfl : Opcode.form? .wide = some .wide) ?_
    refine (reads_u1 _ opcode).bind ?_
    rw [Reading.widened, hform]
    exact (reads_u2 _ index).map _
  · rw [if_neg hlarge] at h ⊢
    cases h
    have hread := Reading.reads_next offset hform ((reads_u1 _ index.toUInt8).map _)
    rwa [toUInt16_toUInt8 (UInt16.not_lt.mp hlarge)] at hread

theorem reads_increment {index : UInt16} {amount : Int16} {origin : Option Nat}
    (h : Instruction.encode relocation offset ⟨.iinc, .increment index amount, origin⟩ =
      .ok bytes) :
    Reads (Reading.next offset) bytes
      ⟨.iinc, .increment index amount,
        Instruction.size ⟨.iinc, .increment index amount, origin⟩ offset⟩ := by
  simp only [Instruction.encode, Instruction.size] at h ⊢
  by_cases hlarge : narrowIndex < index ∨ ¬ fitsByte amount.toInt
  · rw [if_pos hlarge] at h ⊢
    cases h
    refine Reading.reads_next offset (rfl : Opcode.form? .wide = some .wide) ?_
    refine (reads_u1 _ Opcode.iinc).bind ?_
    exact (reads_u2 _ index).bind ((reads_u2 _ amount.toUInt16).map _)
  · rw [if_neg hlarge] at h ⊢
    cases h
    obtain ⟨hnarrow, hfits⟩ := not_or.mp hlarge
    have hread := Reading.reads_next offset (rfl : Opcode.form? .iinc = some .increment)
      ((reads_u1 _ index.toUInt8).bind ((reads_u1 _ amount.toInt8.toUInt8).map _))
    rwa [toUInt16_toUInt8 (UInt16.not_lt.mp hnarrow), toInt16_toInt8 (not_not.mp hfits)] at hread

theorem reads_branch {opcode : Opcode} {target : Nat} {origin : Option Nat}
    (hwithin : Within relocation offset) (hform : opcode.form? = some .branch)
    (h : Instruction.encode relocation offset ⟨opcode, .branch target, origin⟩ = .ok bytes) :
    Reads (Reading.next offset) bytes ⟨opcode, .branch (relocation.destination target), 3⟩ := by
  have hnear : ¬ (opcode = .gotoW ∨ opcode = .jsrW) := fun hwide ↦
    Form.noConfusion ((Opcode.form?_eq_some hform).2.2.mp hwide)
  simp only [Instruction.encode] at h
  obtain ⟨distance, hdistance, h⟩ := except_bind_eq_ok.mp h
  obtain ⟨hmap, rfl⟩ := distance_eq_ok hdistance
  rw [if_neg hnear] at h
  split at h
  · rename_i hfits
    cases h
    exact Reading.reads_next offset hform (Reading.reads_nearTarget hfits (hwithin.map_le _ _ hmap))
  · cases h

theorem reads_wideBranch {opcode : Opcode} {target : Nat} {origin : Option Nat}
    (hwithin : Within relocation offset) (hform : opcode.form? = some .wideBranch)
    (h : Instruction.encode relocation offset ⟨opcode, .branch target, origin⟩ = .ok bytes) :
    Reads (Reading.next offset) bytes ⟨opcode, .branch (relocation.destination target), 5⟩ := by
  simp only [Instruction.encode] at h
  obtain ⟨distance, hdistance, h⟩ := except_bind_eq_ok.mp h
  obtain ⟨hmap, rfl⟩ := distance_eq_ok hdistance
  rw [if_pos ((Opcode.form?_eq_some hform).2.2.mpr rfl)] at h
  cases h
  have hread := Reading.reads_farTarget hwithin.offset_le (hwithin.map_le _ _ hmap)
  exact Reading.reads_next offset hform (hread.map _)

/-- The bytes of an instruction are read as the instruction in its place. -/
theorem reads_encode {instruction : Instruction} (hwithin : Within relocation offset)
    (hwell : instruction.WellFormed) (hend : offset + instruction.size offset ≤ maxCodeLength)
    (h : instruction.encode relocation offset = .ok bytes) :
    Reads (Reading.next offset) bytes
      ⟨instruction.writtenOpcode, instruction.operand.retarget relocation.destination,
        instruction.size offset⟩ := by
  obtain ⟨opcode, operand, origin⟩ := instruction
  obtain ⟨form, hform, hadmits⟩ := hwell
  obtain ⟨hldc, hiinc, hwide⟩ := Opcode.form?_eq_some hform
  dsimp only at hform hadmits hldc hiinc hwide
  cases hadmits with
  | plain =>
    cases h
    exact Reading.reads_next offset hform (reads_pure _)
  | byte value =>
    cases h
    have hread := Reading.reads_next offset hform ((reads_u1 _ value.toUInt8).map _)
    rwa [Int8.toInt8_toUInt8] at hread
  | short value =>
    cases h
    have hread := Reading.reads_next offset hform ((reads_u2 _ value.toUInt16).map _)
    rwa [Int16.toInt16_toUInt16] at hread
  | narrowConstant index =>
    obtain rfl := hldc.mpr rfl
    exact reads_narrowConstant h
  | constant index =>
    have hother : opcode ≠ .ldc := fun hsame ↦ Form.noConfusion (hldc.mp hsame)
    simp only [Instruction.encode, hother, false_and, if_false] at h
    simp only [Instruction.writtenOpcode, Instruction.size, hother, false_and, if_false]
    cases h
    exact Reading.reads_next offset hform ((reads_u2 _ index).map _)
  | slot index => exact reads_slot hform h
  | increment index amount =>
    obtain rfl := hiinc.mpr rfl
    exact reads_increment h
  | branch target =>
    have hnear : ¬ (opcode = .gotoW ∨ opcode = .jsrW) := fun hsame ↦
      Form.noConfusion (hwide.mp hsame)
    simp only [Instruction.size, if_neg hnear]
    exact reads_branch hwithin hform h
  | wideBranch target =>
    simp only [Instruction.size, if_pos (hwide.mpr rfl)]
    exact reads_wideBranch hwithin hform h
  | tableSwitch otherwise low high targets hle hcount =>
    exact reads_tableSwitch hwithin hform hle hcount h
  | lookupSwitch otherwise rows =>
    simp only [Instruction.size] at hend
    exact reads_lookupSwitch hwithin hform (by omega) h
  | interfaceCall index count =>
    cases h
    exact Reading.reads_next offset hform
      ((reads_u2 _ index).bind ((reads_u1 _ count).bind ((reads_u1 _ 0).map _)))
  | dynamicCall index =>
    cases h
    exact Reading.reads_next offset hform ((reads_u2 _ index).bind ((reads_u2 _ 0).map _))
  | arrayType type =>
    cases h
    exact Reading.reads_next offset hform ((reads_u1 _ type).map _)
  | multiArray index dimensions =>
    cases h
    exact Reading.reads_next offset hform ((reads_u2 _ index).bind ((reads_u1 _ dimensions).map _))

/-- Where a jump leads has a new place once the jump was written. -/
theorem map_of_encode {instruction : Instruction}
    (h : instruction.encode relocation offset = .ok bytes) :
    ∀ target ∈ instruction.operand.targets,
      relocation.map target = .ok (relocation.destination target) := by
  obtain ⟨opcode, operand, origin⟩ := instruction
  cases operand with
  | branch target =>
    obtain ⟨distance, hdistance, -⟩ := except_bind_eq_ok.mp h
    exact List.forall_mem_singleton.mpr (distance_eq_ok hdistance).1
  | tableSwitch otherwise low high targets =>
    obtain ⟨first, hfirst, h⟩ := except_bind_eq_ok.mp h
    obtain ⟨distances, hdistances, -⟩ := except_bind_eq_ok.mp h
    refine List.forall_mem_cons.mpr ⟨(distance_eq_ok hfirst).1, fun target htarget ↦ ?_⟩
    obtain ⟨distance, -, hdistance⟩ :=
      exists_of_forall₂ (forall₂_of_mapM_eq_ok hdistances).flip htarget
    exact (distance_eq_ok hdistance).1
  | lookupSwitch otherwise rows =>
    obtain ⟨first, hfirst, h⟩ := except_bind_eq_ok.mp h
    obtain ⟨encoded, hencoded, -⟩ := except_bind_eq_ok.mp h
    refine List.forall_mem_cons.mpr ⟨(distance_eq_ok hfirst).1, fun target htarget ↦ ?_⟩
    obtain ⟨row, hrow, rfl⟩ := List.mem_map.mp htarget
    obtain ⟨written, -, hwritten⟩ := exists_of_forall₂ (forall₂_of_mapM_eq_ok hencoded).flip hrow
    obtain ⟨distance, hdistance, -⟩ := except_bind_eq_ok.mp hwritten
    exact (distance_eq_ok hdistance).1
  | _ => exact fun target htarget ↦ absurd htarget List.not_mem_nil

theorem length_encode {instruction : Instruction} (hwithin : Within relocation offset)
    (hwell : instruction.WellFormed) (hend : offset + instruction.size offset ≤ maxCodeLength)
    (h : instruction.encode relocation offset = .ok bytes) :
    bytes.length = instruction.size offset := by
  have hbefore := (Reading.sound_next (reads_encode hwithin hwell hend h [])).before_eq
  rwa [List.append_nil, List.length_nil, Nat.zero_add] at hbefore

end Encode

/-! ### Bodies -/

theorem readFrom_of_next {bound offset : Nat} {code rest : Bytes} {reading : Reading}
    {others : List Instruction} (hnext : Reading.next offset code = .ok (reading, rest))
    (hothers : readFrom bound (offset + reading.width) rest = .ok others) :
    readFrom (bound + 1) offset code =
      .ok (⟨reading.opcode, reading.operand, some offset⟩ :: others) := by
  cases code with
  | nil => cases hnext
  | cons byte code =>
    exact except_bind_eq_ok.mpr ⟨_, hnext, except_bind_eq_ok.mpr ⟨_, hothers, rfl⟩⟩

/-- Encoded instructions are read as the instructions in their places, and fill the layout. -/
theorem readFrom_flatten {relocation : Relocation} {instructions : List Instruction}
    {offset bound : Nat} {encoded : List Bytes}
    (hmap : ∀ old new, relocation.map old = .ok new → new ≤ maxCodeLength)
    (hwell : ∀ instruction ∈ instructions, instruction.WellFormed)
    (hend : layoutEnd offset instructions ≤ maxCodeLength)
    (hencoded : List.Forall₂ (fun place bytes ↦ place.2.encode relocation place.1 = .ok bytes)
      (layout offset instructions) encoded)
    (hbound : encoded.flatten.length ≤ bound) :
    readFrom bound offset encoded.flatten =
        .ok ((layout offset instructions).map fun place ↦
          place.2.placed relocation.destination place.1) ∧
      offset + encoded.flatten.length = layoutEnd offset instructions := by
  induction instructions generalizing offset bound encoded with
  | nil =>
    cases hencoded
    cases bound <;> exact ⟨rfl, rfl⟩
  | cons instruction rest ih =>
    obtain _ | ⟨hfirst, hothers⟩ := hencoded
    rename_i bytes others
    obtain ⟨hwellFirst, hwellRest⟩ := List.forall_mem_cons.mp hwell
    rw [layoutEnd_cons] at hend
    have hstop := Nat.le_trans (le_layoutEnd _ rest) hend
    have hwithin : Within relocation offset := ⟨by omega, hmap⟩
    have hreads := reads_encode hwithin hwellFirst hstop hfirst
    have hlength := length_encode hwithin hwellFirst hstop hfirst
    have hpos := instruction.size_pos offset
    rw [List.flatten_cons, List.length_append] at hbound
    obtain ⟨bound, rfl⟩ : ∃ smaller, bound = smaller + 1 := ⟨bound - 1, by omega⟩
    obtain ⟨hread, hfilled⟩ := ih hwellRest hend hothers (show _ ≤ bound by omega)
    constructor
    · exact readFrom_of_next (hreads others.flatten) hread
    · rw [List.flatten_cons, List.length_append, hlength, ← Nat.add_assoc, hfilled, layoutEnd_cons]

theorem origins_placed (destination : Nat → Nat) (places : List (Nat × Instruction)) :
    origins (places.map fun place ↦ place.2.placed destination place.1) = places.map Prod.fst := by
  rw [origins, List.filterMap_map, ← List.filterMap_eq_map]
  rfl

theorem Operand.targets_retarget (destination : Nat → Nat) (operand : Operand) :
    (operand.retarget destination).targets = operand.targets.map destination := by
  cases operand with
  | lookupSwitch otherwise rows => simp [retarget, targets, Function.comp_def]
  | _ => rfl

theorem assemble_eq_ok {instructions : List Instruction} {oldLength : Nat} {code : Bytes}
    {relocation : Relocation} (h : assemble instructions oldLength = .ok (code, relocation)) :
    relocation = .ofLayout oldLength instructions ∧ layoutEnd 0 instructions ≤ maxCodeLength ∧
      ∃ encoded, code = encoded.flatten ∧
        List.Forall₂ (fun place bytes ↦ place.2.encode relocation place.1 = .ok bytes)
          (layout 0 instructions) encoded := by
  unfold assemble at h
  by_cases hlarge : maxCodeLength < (Relocation.ofLayout oldLength instructions).newLength
  · rw [if_pos hlarge] at h
    cases h
  · rw [if_neg hlarge] at h
    obtain ⟨encoded, hencoded, h⟩ := except_bind_eq_ok.mp h
    cases h
    exact ⟨rfl, Nat.le_of_not_lt hlarge, encoded, rfl, forall₂_of_mapM_eq_ok hencoded⟩

/-! ### Code without jumps -/

theorem exists_encode {instruction : Instruction} (hplain : instruction.operand.targets = [])
    (relocation : Relocation) (offset : Nat) :
    ∃ bytes, instruction.encode relocation offset = .ok bytes := by
  obtain ⟨opcode, operand, origin⟩ := instruction
  cases operand with
  | branch _ | tableSwitch _ _ _ _ | lookupSwitch _ _ => cases hplain
  | constant index =>
    by_cases hnarrow : opcode = .ldc ∧ index ≤ narrowIndex
    · exact ⟨_, if_pos hnarrow⟩
    · exact ⟨_, if_neg hnarrow⟩
  | slot index =>
    by_cases hwide : narrowIndex < index
    · exact ⟨_, if_pos hwide⟩
    · exact ⟨_, if_neg hwide⟩
  | increment index amount =>
    by_cases hwide : narrowIndex < index ∨ ¬ fitsByte amount.toInt
    · exact ⟨_, if_pos hwide⟩
    · exact ⟨_, if_neg hwide⟩
  | _ => exact ⟨_, rfl⟩

/-- Code that does not jump can be written unless it is too long. -/
theorem exists_assemble {instructions : List Instruction}
    (hplain : ∀ instruction ∈ instructions, instruction.operand.targets = [])
    (hlength : layoutEnd 0 instructions ≤ maxCodeLength) (oldLength : Nat) :
    ∃ laid, assemble instructions oldLength = .ok laid := by
  have hencoded (relocation : Relocation) (places : List (Nat × Instruction))
      (hplaces : ∀ place ∈ places, place.2.operand.targets = []) :
      ∃ encoded, places.mapM (fun place ↦ place.2.encode relocation place.1) = .ok encoded := by
    induction places with
    | nil => exact ⟨[], rfl⟩
    | cons place rest ih =>
      obtain ⟨hfirst, hrest⟩ := List.forall_mem_cons.mp hplaces
      obtain ⟨bytes, hbytes⟩ := exists_encode hfirst relocation place.1
      obtain ⟨encoded, hencoded⟩ := ih hrest
      refine ⟨bytes :: encoded, ?_⟩
      rw [List.mapM_cons]
      exact except_bind_eq_ok.mpr ⟨_, hbytes, except_bind_eq_ok.mpr ⟨_, hencoded, rfl⟩⟩
  obtain ⟨encoded, hmapped⟩ := hencoded (.ofLayout oldLength instructions) (layout 0 instructions)
    fun place hplace ↦ hplain _ (mem_of_mem_layout hplace)
  refine ⟨(encoded.flatten, .ofLayout oldLength instructions), ?_⟩
  have hfits : ¬ maxCodeLength < (Relocation.ofLayout oldLength instructions).newLength :=
    Nat.not_lt.mpr hlength
  unfold assemble
  dsimp only
  rw [if_neg hfits]
  exact except_bind_eq_ok.mpr ⟨_, hmapped, rfl⟩

section Assemble

variable {instructions : List Instruction} {oldLength : Nat} {code : Bytes}
  {relocation : Relocation}

/-- The target of a jump has moved to the place of an instruction. -/
theorem map_target (horigin : ∀ origin ∈ origins instructions, origin < oldLength) {target : Nat}
    (htarget : target ∈ origins instructions)
    (hassemble : assemble instructions oldLength = .ok (code, relocation)) :
    relocation.map target = .ok (relocation.destination target) ∧
      relocation.destination target ∈ (layout 0 instructions).map Prod.fst := by
  obtain ⟨rfl, -, -⟩ := assemble_eq_ok hassemble
  have hne := Nat.ne_of_lt (horigin target htarget)
  obtain ⟨place, hplace, hmap⟩ := Relocation.exists_map_ofLayout hne htarget
  rw [Relocation.destination_of_map hmap]
  exact ⟨hmap, List.mem_map_of_mem hplace⟩

theorem read_assemble (hwell : ∀ instruction ∈ instructions, instruction.WellFormed)
    (hassemble : assemble instructions oldLength = .ok (code, relocation)) :
    readFrom code.length 0 code = .ok ((layout 0 instructions).map fun place ↦
        place.2.placed relocation.destination place.1) ∧
      code.length = relocation.newLength := by
  obtain ⟨rfl, hend, encoded, rfl, hencoded⟩ := assemble_eq_ok hassemble
  have hmap : ∀ old new, (Relocation.ofLayout oldLength instructions).map old = .ok new →
      new ≤ maxCodeLength :=
    fun old new hnew ↦ Nat.le_trans (Relocation.map_ofLayout_le hnew) hend
  obtain ⟨hread, hfilled⟩ := readFrom_flatten hmap hwell hend hencoded (Nat.le_refl _)
  exact ⟨hread, by rw [← Nat.zero_add encoded.flatten.length, hfilled]; rfl⟩

theorem newLength_assemble_le
    (hassemble : assemble instructions oldLength = .ok (code, relocation)) :
    relocation.newLength ≤ maxCodeLength := by
  obtain ⟨rfl, hend, -⟩ := assemble_eq_ok hassemble
  exact hend

/-- An assembled body is read as its instructions, each in its place. -/
theorem decode_of_assemble (hwell : ∀ instruction ∈ instructions, instruction.WellFormed)
    (horigin : ∀ origin ∈ origins instructions, origin < oldLength)
    (htargets : ∀ instruction ∈ instructions, ∀ target ∈ instruction.operand.targets,
      target ∈ origins instructions)
    (hassemble : assemble instructions oldLength = .ok (code, relocation)) :
    decode code = .ok ((layout 0 instructions).map fun place ↦
      place.2.placed relocation.destination place.1) := by
  refine decode_eq_ok_iff.mpr ⟨(read_assemble hwell hassemble).1, ?_⟩
  rw [origins_placed]
  refine List.forall_mem_map.mpr fun place hplace target htarget ↦ ?_
  simp only [Instruction.placed, Operand.targets_retarget] at htarget
  obtain ⟨old, hold, rfl⟩ := List.mem_map.mp htarget
  exact (map_target horigin (htargets _ (mem_of_mem_layout hplace) old hold) hassemble).2

/-- Assembled code that can be read at all was made of jumps to instructions only. -/
theorem targets_of_decode (hwell : ∀ instruction ∈ instructions, instruction.WellFormed)
    (hassemble : assemble instructions oldLength = .ok (code, relocation))
    {read : List Instruction} (hread : decode code = .ok read) :
    ∀ instruction ∈ instructions, ∀ target ∈ instruction.operand.targets,
      target ∈ origins instructions := by
  intro instruction hmem target htarget
  obtain ⟨hagain, hstarts⟩ := decode_eq_ok_iff.mp hread
  obtain rfl := Except.ok.inj (hagain.symm.trans (read_assemble hwell hassemble).1)
  obtain ⟨rfl, -, encoded, rfl, hencoded⟩ := assemble_eq_ok hassemble
  rw [← map_snd_layout 0 instructions] at hmem
  obtain ⟨place, hplace, rfl⟩ := List.mem_map.mp hmem
  obtain ⟨bytes, -, hbytes⟩ := exists_of_forall₂ hencoded.flip hplace
  have hmap := map_of_encode hbytes target htarget
  rcases Relocation.map_ofLayout_eq_ok hmap with ⟨-, hend⟩ | ⟨found, hfound, -, horigin⟩
  · -- A jump to the end would have been read as one to where no instruction starts.
    have hlands : (Relocation.ofLayout oldLength instructions).destination target ∈
        (layout 0 instructions).map Prod.fst := by
      rw [← origins_placed]
      refine hstarts _ (List.mem_map_of_mem hplace) _ ?_
      rw [Instruction.placed, Operand.targets_retarget]
      exact List.mem_map_of_mem htarget
    obtain ⟨last, hlast, hsame⟩ := List.mem_map.mp hlands
    have hlt := lt_layoutEnd_of_mem_layout hlast
    omega
  · exact mem_origins.mpr ⟨found.2, mem_of_mem_layout hfound, horigin⟩

/-- Decoding undoes assembling: an assembled body has the length that it was laid out for, and is
read as its instructions, each in its place, with all jumps led to where their targets have
moved. -/
theorem decode_assemble (hwell : ∀ instruction ∈ instructions, instruction.WellFormed)
    (horigin : ∀ origin ∈ origins instructions, origin < oldLength)
    (htargets : ∀ instruction ∈ instructions, ∀ target ∈ instruction.operand.targets,
      target ∈ origins instructions)
    (hassemble : assemble instructions oldLength = .ok (code, relocation)) :
    code.length = relocation.newLength ∧ relocation.newLength ≤ maxCodeLength ∧
      (∀ instruction ∈ instructions, ∀ target ∈ instruction.operand.targets,
        relocation.map target = .ok (relocation.destination target)) ∧
      decode code = .ok ((layout 0 instructions).map fun place ↦
        place.2.placed relocation.destination place.1) :=
  ⟨(read_assemble hwell hassemble).2, newLength_assemble_le hassemble,
    fun instruction hmem target htarget ↦
      (map_target horigin (htargets instruction hmem target htarget) hassemble).1,
    decode_of_assemble hwell horigin htargets hassemble⟩

end Assemble

/-- A jump over a constant that is beyond the reach of `ldc`. -/
theorem decode_assemble_widened :
    decode [0xa7, 0, 6, 0x13, 1, 44, 0xb1] =
      .ok [⟨0xa7, .branch 6, some 0⟩, ⟨.ldcW, .constant 300, some 3⟩, ⟨0xb1, .none, some 6⟩] :=
  (decode_assemble
    (show ∀ instruction ∈
        [⟨0xa7, .branch 5, some 0⟩, ⟨.ldc, .constant 300, none⟩, ⟨0xb1, .none, some 5⟩],
        Instruction.WellFormed instruction by
      simp only [List.forall_mem_cons]
      exact ⟨⟨.branch, rfl, .branch 5⟩, ⟨.narrowConstant, rfl, .narrowConstant 300⟩,
        ⟨.plain, rfl, .plain⟩, by simp⟩)
    (show ∀ origin ∈ _, origin < 6 by decide) (by decide) rfl).2.2.2

end ClassWeaver.Code
