import ClassWeaver.Proofs.Code.Editing

/-!
Bodies that come of another one by putting a block of instructions in the place of each instruction.

Which instructions make up a block is told by the number of the old instruction and by what it is.
A body is the expansion of another one when its instructions are those of the blocks, in their
order, but for where jumps lead: to the first instruction in the block of the one that they led to
(`Expanded`). Edits make an expansion of a body (`expands_of_edited`).
-/

set_option autoImplicit false
set_option relaxedAutoImplicit false

namespace ClassWeaver.Code

open ClassFile

/-! ### Expansions -/

section

variable (expand : Nat → Instruction → List Instruction) (original revised : List Instruction)

/-- The number of the first instruction in the block of instruction `index`. -/
def blockStart (index : Nat) : Nat :=
  ((original.mapIdx expand).take index).flatten.length

/-- Where jumps lead: to the first instruction in the block of the one that they led to. -/
def Lands (old new : Nat) : Prop :=
  ∃ index, StartsAt original index old ∧
    StartsAt revised (blockStart expand original index) new

/-- The same instruction, but for where its jumps lead. -/
structure Matches (before after : Instruction) : Prop where
  opcode : after.opcode = before.opcode
  operand : ∃ destination : Nat → Nat,
    (∀ target ∈ before.operand.targets,
      Lands expand original revised target (destination target)) ∧
        after.operand = before.operand.retarget destination

/-- All instructions are those of the blocks. -/
def Expanded : Prop :=
  List.Forall₂ (Matches expand original revised) (original.mapIdx expand).flatten revised

/-- Where the offsets in tables lead: where jumps to them do, and the end to the end. -/
inductive Shifts (oldLength newLength : Nat) : Nat → Nat → Prop
  | stop : Shifts oldLength newLength oldLength newLength
  | start {old new : Nat} (hlands : Lands expand original revised old new) :
    Shifts oldLength newLength old new

/-- The code of a body is read as an expansion of what it was read as before, and its tables have
moved along. -/
structure Expands (before after : MethodBody) : Prop where
  code : decode after.code = .ok revised
  instructions : Expanded expand original revised
  tables : BodyMoved
    (Shifts expand original revised before.code.length after.code.length) before after

end

section Shifts

variable {expand : Nat → Instruction → List Instruction} {original revised : List Instruction}
  {oldLength newLength old new : Nat}

theorem Shifts.stop_or_lands (h : Shifts expand original revised oldLength newLength old new) :
    old = oldLength ∧ new = newLength ∨ Lands expand original revised old new := by
  cases h with
  | stop => exact .inl ⟨rfl, rfl⟩
  | start hlands => exact .inr hlands

theorem Shifts.lands (h : Shifts expand original revised oldLength newLength old new)
    (hlt : old < oldLength) : Lands expand original revised old new :=
  h.stop_or_lands.resolve_left fun hstop ↦ Nat.ne_of_lt hlt hstop.1

end Shifts

/-! ### Blocks -/

section Blocks

variable {expand : Nat → Instruction → List Instruction} {original revised : List Instruction}
  {index : Nat} {old : Instruction}

theorem getElem?_blocks (hold : original[index]? = some old) :
    (original.mapIdx expand)[index]? = some (expand index old) := by
  rw [List.getElem?_mapIdx, hold]
  rfl

theorem blockStart_succ (hold : original[index]? = some old) :
    blockStart expand original (index + 1) =
      blockStart expand original index + (expand index old).length := by
  rw [blockStart, List.take_add_one, getElem?_blocks hold, List.flatten_append, List.length_append,
    Option.toList_some, List.flatten_singleton]
  rfl

theorem blockStart_mono {first second : Nat} (h : first ≤ second) :
    blockStart expand original first ≤ blockStart expand original second := by
  obtain ⟨more, rfl⟩ := Nat.exists_eq_add_of_le h
  rw [blockStart, blockStart, List.take_add, List.flatten_append, List.length_append]
  exact Nat.le_add_right _ _

/-- Blocks of one instruction each keep the numbers. -/
theorem blockStart_of_single (hsingle : ∀ index old, original[index]? = some old →
    (expand index old).length = 1) (hindex : index ≤ original.length) :
    blockStart expand original index = index := by
  induction index with
  | zero => rfl
  | succ index ih =>
    have hold := List.getElem?_eq_getElem (show index < original.length from hindex)
    rw [blockStart_succ hold, ih (Nat.le_of_succ_le hindex), hsingle index _ hold]

/-- Among the instructions of the blocks, those of one stand behind each other. -/
theorem getElem?_expansion (hold : original[index]? = some old) {place : Nat}
    (hplace : place < (expand index old).length) :
    (original.mapIdx expand).flatten[blockStart expand original index + place]? =
      (expand index old)[place]? := by
  rw [flatten_eq_append (getElem?_blocks hold), blockStart,
    List.getElem?_append_right (Nat.le_add_right _ _), Nat.add_sub_cancel_left,
    List.getElem?_append_left hplace]

/-- Every instruction of a list of groups stands in some group. -/
theorem exists_group_of_getElem? {groups : List (List Instruction)} {place : Nat}
    {found : Instruction} (h : groups.flatten[place]? = some found) :
    ∃ index group offset, groups[index]? = some group ∧ group[offset]? = some found ∧
      place = (groups.take index).flatten.length + offset := by
  induction groups generalizing place with
  | nil => simp at h
  | cons first rest ih =>
    rw [List.flatten_cons] at h
    by_cases hplace : place < first.length
    · rw [List.getElem?_append_left hplace] at h
      exact ⟨0, first, place, rfl, h, by simp⟩
    · rw [List.getElem?_append_right (Nat.le_of_not_lt hplace)] at h
      obtain ⟨index, group, offset, hgroup, hfound, hsame⟩ := ih h
      refine ⟨index + 1, group, offset, hgroup, hfound, ?_⟩
      rw [List.take_succ_cons, List.flatten_cons, List.length_append]
      omega

theorem exists_block_of_getElem? {place : Nat} {before : Instruction}
    (h : (original.mapIdx expand).flatten[place]? = some before) :
    ∃ index old offset, original[index]? = some old ∧ (expand index old)[offset]? = some before ∧
      place = blockStart expand original index + offset := by
  obtain ⟨index, block, offset, hblock, hbefore, hplace⟩ := exists_group_of_getElem? h
  rw [List.getElem?_mapIdx, Option.map_eq_some_iff] at hblock
  obtain ⟨old, hold, rfl⟩ := hblock
  exact ⟨index, old, offset, hold, hbefore, hplace⟩

/-- Elements at one place of related lists are related. -/
theorem exists_of_getElem?_left {α β : Type} {relation : α → β → Prop} {items : List α}
    {others : List β} (h : List.Forall₂ relation items others) {place : Nat} {item : α}
    (hitem : items[place]? = some item) : ∃ other, others[place]? = some other ∧
      relation item other := by
  obtain ⟨hlt, rfl⟩ := List.getElem?_eq_some_iff.mp hitem
  obtain ⟨hlength, heach⟩ := List.forall₂_iff_get.mp h
  exact ⟨_, List.getElem?_eq_getElem (hlength ▸ hlt), heach place hlt (hlength ▸ hlt)⟩

/-- What is related to two lists behind each other is two lists behind each other. -/
theorem forall₂_append_left {α β : Type} {relation : α → β → Prop} {front back : List α}
    {others : List β} (h : List.Forall₂ relation (front ++ back) others) :
    ∃ first second, others = first ++ second ∧ List.Forall₂ relation front first ∧
      List.Forall₂ relation back second := by
  induction front generalizing others with
  | nil => exact ⟨[], others, rfl, .nil, h⟩
  | cons item rest ih =>
    obtain _ | ⟨hitem, hrest⟩ := h
    obtain ⟨first, second, rfl, hfirst, hsecond⟩ := ih hrest
    exact ⟨_ :: first, second, rfl, .cons hitem hfirst, hsecond⟩

namespace Expanded

variable (h : Expanded expand original revised)

include h

theorem getElem? {offset : Nat} {before : Instruction} (hold : original[index]? = some old)
    (hbefore : (expand index old)[offset]? = some before) :
    ∃ after, revised[blockStart expand original index + offset]? = some after ∧
      Matches expand original revised before after := by
  refine exists_of_getElem?_left h ?_
  rw [getElem?_expansion hold (List.getElem?_eq_some_iff.mp hbefore).1, hbefore]

/-- Every instruction of the expansion is one of some block. -/
theorem exists_before {place : Nat} {after : Instruction} (hafter : revised[place]? = some after) :
    ∃ index old offset before, original[index]? = some old ∧
      (expand index old)[offset]? = some before ∧
        place = blockStart expand original index + offset ∧
          Matches expand original revised before after := by
  obtain ⟨before, hbefore, hmatches⟩ := exists_of_getElem?_left h.flip hafter
  obtain ⟨index, old, offset, hold, hblock, hplace⟩ := exists_block_of_getElem? hbefore
  exact ⟨index, old, offset, before, hold, hblock, hplace, hmatches⟩

/-- The block of an instruction stands between those of its neighbours. -/
theorem block (hold : original[index]? = some old) :
    ∃ front block back, revised = front ++ (block ++ back) ∧
      front.length = blockStart expand original index ∧
        List.Forall₂ (Matches expand original revised) (expand index old) block := by
  rw [Expanded, flatten_eq_append (getElem?_blocks hold)] at h
  obtain ⟨front, rest, rfl, hfront, hrest⟩ := forall₂_append_left h
  obtain ⟨block, back, rfl, hblock, -⟩ := forall₂_append_left hrest
  exact ⟨front, block, back, rfl, hfront.length_eq.symm, hblock⟩

end Expanded

/-- What does not jump is not retargeted. -/
theorem Operand.retarget_of_targets_eq_nil {operand : Operand} (h : operand.targets = [])
    (destination : Nat → Nat) : operand.retarget destination = operand := by
  cases operand with
  | branch _ | tableSwitch _ _ _ _ | lookupSwitch _ _ => cases h
  | _ => rfl

/-- What does not jump is in a body as it is in its block. -/
theorem content_of_matches {block found : List Instruction}
    (h : List.Forall₂ (Matches expand original revised) block found)
    (hstraight : ∀ instruction ∈ block, instruction.operand.targets = []) :
    found.map Instruction.content = block.map Instruction.content := by
  induction h with
  | nil => rfl
  | cons hfirst _ ih =>
    obtain ⟨hnone, hrest⟩ := List.forall_mem_cons.mp hstraight
    obtain ⟨hopcode, destination, -, hoperand⟩ := hfirst
    rw [Operand.retarget_of_targets_eq_nil hnone] at hoperand
    rw [List.map_cons, List.map_cons, ih hrest, Instruction.content, hopcode, hoperand]
    rfl

end Blocks

/-! ### Edits that expand a body -/

/-- The instruction under the opcode that it is written under. -/
def Instruction.written (instruction : Instruction) : Instruction :=
  { instruction with opcode := instruction.writtenOpcode }

section Edits

variable {expand : Nat → Instruction → List Instruction} {original : List Instruction}
  {pool : ConstantPool} {body : MethodBody} {editor : Editor} {history : List Edit}

/-- Where offsets go after edits is where they lead in the expansion. -/
theorem goes_eq_shifts {revision : Revision}
    (hstart : ∀ index, blockStart expand revision.original index = revision.firstOf index) :
    revision.Goes = Shifts expand revision.original revision.revised revision.oldLength
      revision.newLength := by
  funext old new
  refine propext ⟨fun hgoes ↦ ?_, fun hshifts ↦ ?_⟩
  · cases hgoes with
    | stop => exact .stop
    | instruction hbefore hbeforeOrigin hafter hafterOrigin =>
      rw [← hstart] at hafter
      exact .start ⟨_, ⟨_, hbefore, hbeforeOrigin⟩, _, hafter, hafterOrigin⟩
  · cases hshifts with
    | stop => exact .stop
    | start hlands =>
      obtain ⟨index, ⟨first, hfirst, hfirstOrigin⟩, second, hsecond, hsecondOrigin⟩ := hlands
      rw [hstart] at hsecond
      exact .instruction hfirst hfirstOrigin hsecond hsecondOrigin

/-- Edits that are applied expand the body by what stands in the place of each instruction. -/
theorem expands_of_edited (hdecode : decode body.code = .ok original)
    (heditor : Editor.ofBody pool body = .ok editor)
    (hwell : ∀ edit ∈ history, ∀ instruction ∈ edit.code, instruction.WellFormed)
    (htargets : ∀ instruction ∈ (editor.replay history).edited,
      ∀ target ∈ instruction.operand.targets, target ∈ origins original)
    (hmodified : (editor.replay history).isModified = true)
    (happlied : ((editor.replay history).apply body).failure = none)
    (hstanding : ∀ index old, original[index]? = some old →
      (standing history index old).map Instruction.written = expand index old) :
    ∃ revised, Expands expand original revised body ((editor.replay history).apply body).value := by
  obtain ⟨hinstructions, hblank, -⟩ := Editor.ofBody_eq_ok heditor
  obtain ⟨hrevised, hlength, hsame, hmoved⟩ :=
    decode_apply_edited hdecode heditor hwell htargets hmodified happlied
  obtain rfl : editor.instructions.toList = original :=
    Except.ok.inj (hinstructions.symm.trans hdecode)
  have hbound := (ascending_ofBody heditor).2
  have hcontent := content_edited history hblank body.code.length
  have hjumps : ∀ before ∈ (editor.revision history body.code.length).groups.flatten,
      ∀ target ∈ before.operand.targets, target ∈ origins editor.instructions.toList := by
    intro before hbefore target htarget
    obtain ⟨edited, hedited, hequal⟩ :=
      List.mem_map.mp (hcontent ▸ List.mem_map_of_mem (f := Instruction.content) hbefore)
    exact htargets edited hedited target ((Prod.mk.inj hequal).2 ▸ htarget)
  have hblocks : editor.instructions.toList.mapIdx expand =
      (editor.revision history body.code.length).groups.map (List.map Instruction.written) := by
    apply List.ext_getElem?
    intro index
    rw [Revision.groups, List.getElem?_map, List.getElem?_mapIdx, List.getElem?_mapIdx,
      Option.map_map]
    exact Option.map_congr fun old hold ↦ (hstanding index old hold).symm
  have hshifts : (editor.revision history body.code.length).Goes = Shifts expand _ _ _ _ :=
    goes_eq_shifts fun index ↦ by
      rw [blockStart, Revision.firstOf, Editor.revision, hblocks, ← List.map_take,
        ← List.map_flatten, List.length_map]
      rfl
  refine ⟨_, hrevised, ?_, hlength ▸ hshifts ▸ hmoved⟩
  rw [Expanded, hblocks, ← List.map_flatten, List.forall₂_map_left_iff]
  refine ((List.forall₂_and_left _ _).mpr ⟨hjumps, hsame⟩).imp fun before after hboth ↦ ?_
  obtain ⟨hstarts, hopcode, destination, hgoes, hoperand⟩ := hboth
  refine ⟨hopcode, destination, fun target htarget ↦ ?_, hoperand⟩
  exact Shifts.lands (hshifts ▸ hgoes target htarget) (hbound target (hstarts target htarget))

/-- An instruction that is written as it is and does not jump. -/
structure Instruction.Straight (instruction : Instruction) : Prop where
  wellFormed : instruction.WellFormed
  targets : instruction.operand.targets = []
  opcode : instruction.opcode ≠ .ldc

theorem written_of_decode {code : Bytes} (hdecode : decode code = .ok original) :
    ∀ instruction ∈ original, instruction.written = instruction := by
  intro instruction hmem
  have hnarrow := narrow_of_readFrom (decode_eq_ok_iff.mp hdecode).1 instruction hmem
  rw [Instruction.written, Instruction.writtenOpcode_of_narrow hnarrow]

theorem Instruction.Straight.written_eq {instruction : Instruction} (h : instruction.Straight) :
    instruction.written = instruction := by
  rw [Instruction.written, Instruction.writtenOpcode_of_ne h.opcode]

/-- Bodies that differ at most in the room that they ask for. -/
structure SameButRoom (before after : MethodBody) : Prop where
  code : after.code = before.code
  handlers : after.handlers = before.handlers
  attributes : after.attributes = before.attributes
  maxLocals : after.maxLocals = before.maxLocals

theorem relocateBody_extraStack (body : MethodBody) (instructions : List Instruction)
    (removed : Std.TreeSet Nat) (first second : UInt16) :
    (relocateBody body instructions removed second).failure =
        (relocateBody body instructions removed first).failure ∧
      SameButRoom (relocateBody body instructions removed first).value
        (relocateBody body instructions removed second).value := by
  unfold relocateBody
  cases assemble instructions body.code.length with
  | error fault => exact ⟨rfl, rfl, rfl, rfl, rfl⟩
  | ok assembled =>
    obtain ⟨code, relocation⟩ := assembled
    dsimp only
    generalize Attempt.andThen (Attempt.within _ _) _ = moved
    obtain ⟨value, failure⟩ := moved
    cases failure with
    | some fault => exact ⟨rfl, rfl, rfl, rfl, rfl⟩
    | none => exact ⟨rfl, rfl, rfl, rfl, rfl⟩

/-- The same edits with another pool and other room. -/
def Editor.withRoom (editor : Editor) (pool : ConstantPool) (extraStack : UInt16) : Editor :=
  { editor with pool, extraStack }

theorem replay_withRoom (editor : Editor) (pool : ConstantPool) (extraStack : UInt16)
    (history : List Edit) :
    (editor.withRoom pool extraStack).replay history =
      (editor.replay history).withRoom pool extraStack := by
  induction history generalizing editor with
  | nil => rfl
  | cons edit rest ih =>
    have hrecord : edit.record (editor.withRoom pool extraStack) =
        (edit.record editor).withRoom pool extraStack := by
      cases edit with
      | replace index code =>
        simp only [Edit.record, Editor.replace, Editor.withRoom]
        split <;> rfl
      | insertBefore index code =>
        simp only [Edit.record, Editor.insertBefore, Editor.withRoom]
        split <;> rfl
    exact (congrArg (Editor.replay · rest) hrecord).trans (ih (edit.record editor))

theorem isModified_withRoom (editor : Editor) (pool : ConstantPool) (extraStack : UInt16) :
    (editor.withRoom pool extraStack).isModified = editor.isModified :=
  rfl

/-- Applying edits does not look at the pool. -/
theorem apply_withRoom (editor : Editor) (pool : ConstantPool) (extraStack : UInt16)
    (body : MethodBody) :
    ((editor.withRoom pool extraStack).apply body).failure = (editor.apply body).failure ∧
      SameButRoom (editor.apply body).value
        ((editor.withRoom pool extraStack).apply body).value := by
  unfold Editor.apply
  rw [isModified_withRoom]
  cases editor.isModified with
  | false => exact ⟨rfl, rfl, rfl, rfl, rfl⟩
  | true => exact relocateBody_extraStack body _ _ _ _

theorem Expands.withRoom {revised : List Instruction} {after later : MethodBody}
    (h : Expands expand original revised body after) (hsame : SameButRoom after later) :
    Expands expand original revised body later where
  code := hsame.code ▸ h.code
  instructions := h.instructions
  tables := by
    rw [hsame.code]
    exact ⟨hsame.handlers ▸ h.tables.handlers, hsame.attributes ▸ h.tables.attributes,
      hsame.maxLocals ▸ h.tables.maxLocals⟩

/-- The same for edits that bring in nothing that jumps, whatever became of the pool. -/
theorem expands_of_straight {larger : ConstantPool} {extraStack : UInt16}
    (hdecode : decode body.code = .ok original) (heditor : Editor.ofBody pool body = .ok editor)
    (hstraight : ∀ edit ∈ history, ∀ instruction ∈ edit.code, instruction.Straight)
    (hstanding : ∀ index old, original[index]? = some old →
      standing history index old = expand index old) {later : Editor}
    (hlater : later = (editor.replay history).withRoom larger extraStack)
    (hmodified : later.isModified = true) (happlied : (later.apply body).failure = none) :
    ∃ revised, Expands expand original revised body (later.apply body).value := by
  subst hlater
  obtain ⟨hfailure, hsame⟩ := apply_withRoom (editor.replay history) larger extraStack body
  obtain ⟨hinstructions, hblank, -⟩ := Editor.ofBody_eq_ok heditor
  obtain rfl : editor.instructions.toList = original :=
    Except.ok.inj (hinstructions.symm.trans hdecode)
  have htargets := targets_edited hblank (decode_eq_ok_iff.mp hdecode).2
    fun edit hedit instruction hmem target htarget ↦ by
      rw [(hstraight edit hedit instruction hmem).targets] at htarget
      cases htarget
  have hwritten : ∀ index old, editor.instructions.toList[index]? = some old →
      (standing history index old).map Instruction.written = expand index old := by
    intro index old hold
    rw [← hstanding index old hold]
    refine (List.map_congr_left fun instruction hmem ↦ ?_).trans (List.map_id _)
    rcases mem_standing hmem with rfl | rfl | ⟨edit, hedit, hcode⟩
    · exact written_of_decode hdecode _ (List.mem_of_getElem? hold)
    · rfl
    · exact (hstraight edit hedit instruction hcode).written_eq
  obtain ⟨revised, hexpands⟩ := expands_of_edited hdecode heditor
    (fun edit hedit instruction hmem ↦ (hstraight edit hedit instruction hmem).wellFormed) htargets
    hmodified (hfailure ▸ happlied) hwritten
  exact ⟨revised, hexpands.withRoom hsame⟩

end Edits

/-! ### The same expansion by other blocks -/

/-- What matches an instruction matches any other one with its content. -/
theorem forall₂_of_content {relation : Instruction → Instruction → Prop}
    (hcontent : ∀ before other after, other.content = before.content → relation before after →
      relation other after) {block others found : List Instruction}
    (h : List.Forall₂ relation block found)
    (hsame : others.map Instruction.content = block.map Instruction.content) :
    List.Forall₂ relation others found := by
  induction h generalizing others with
  | nil =>
    obtain rfl := List.map_eq_nil_iff.mp hsame
    exact .nil
  | cons hfirst _ ih =>
    obtain ⟨first, rest, rfl, hhead, htail⟩ := List.map_eq_cons_iff.mp hsame
    exact .cons (hcontent _ _ _ hhead hfirst) (ih htail)

/-- Blocks with the same contents make up the same expansion. -/
theorem Expands.congr {expand other : Nat → Instruction → List Instruction}
    {original revised : List Instruction} {old new : MethodBody}
    (h : Expands expand original revised old new)
    (hsame : ∀ index instruction, original[index]? = some instruction →
      (other index instruction).map Instruction.content =
        (expand index instruction).map Instruction.content) :
    Expands other original revised old new := by
  have hblocks : (original.mapIdx other).map (List.map Instruction.content) =
      (original.mapIdx expand).map (List.map Instruction.content) := by
    apply List.ext_getElem?
    intro index
    simp only [List.getElem?_map, List.getElem?_mapIdx, Option.map_map]
    exact Option.map_congr fun instruction hinstruction ↦ hsame index instruction hinstruction
  have hstart : blockStart other original = blockStart expand original := by
    funext index
    have hflat := congrArg (fun blocks ↦ (blocks.take index).flatten.length) hblocks
    simpa only [blockStart, ← List.map_take, ← List.map_flatten, List.length_map] using hflat
  have hlands : Lands other original revised = Lands expand original revised := by
    funext before after
    rw [Lands, Lands, hstart]
  have hshifts : Shifts other original revised = Shifts expand original revised := by
    funext oldLength newLength before after
    refine propext ⟨fun hshifts ↦ ?_, fun hshifts ↦ ?_⟩
    · rcases hshifts.stop_or_lands with ⟨rfl, rfl⟩ | hother
      · exact .stop
      · exact .start (hlands ▸ hother)
    · rcases hshifts.stop_or_lands with ⟨rfl, rfl⟩ | hexpand
      · exact .stop
      · exact .start (hlands ▸ hexpand)
  refine ⟨h.code, ?_, hshifts ▸ h.tables⟩
  have hmatches := h.instructions.imp fun before after ⟨hopcode, destination, hjumps, hoperand⟩ ↦
    (⟨hopcode, destination, hlands ▸ hjumps, hoperand⟩ :
      Matches other original revised before after)
  refine forall₂_of_content (fun before copy after hcopy hbefore ↦ ?_) hmatches
    (by rw [List.map_flatten, List.map_flatten, hblocks])
  obtain ⟨hopcode, destination, hjumps, hoperand⟩ := hbefore
  obtain ⟨hcopyOpcode, hcopyOperand⟩ := Prod.mk.inj hcopy
  exact ⟨hcopyOpcode ▸ hopcode, destination, hcopyOperand ▸ hjumps, hcopyOperand ▸ hoperand⟩

/-! ### Bodies that were left alone -/

section Unmodified

variable {expand : Nat → Instruction → List Instruction} {original : List Instruction}

theorem Operand.retarget_id (operand : Operand) : operand.retarget id = operand := by
  cases operand <;> simp [retarget]

theorem standing_of_unmodified {editor : Editor} {history : List Edit} {index : Nat}
    {old : Instruction} (hmodified : (editor.replay history).isModified = false)
    (hold : editor.instructions[index]? = some old) : standing history index old = [old] := by
  have hempty : (editor.replay history).replacements.isEmpty = true := by
    simpa [Editor.isModified] using hmodified
  have hnone := Editor.getElem?_replay history hold
  rw [Std.TreeMap.getElem?_of_isEmpty hempty, eq_comm, Option.or_eq_none_iff] at hnone
  rw [standing, Option.map_eq_none_iff.mp hnone.1]

/-- What was read is the expansion of itself. -/
theorem expanded_self {code : Bytes} (hdecode : decode code = .ok original)
    (hself : ∀ index old, original[index]? = some old → expand index old = [old]) :
    Expanded expand original original := by
  have hblocks : original.mapIdx expand = original.map ([·]) := by
    apply List.ext_getElem?
    intro index
    rw [List.getElem?_mapIdx, List.getElem?_map]
    exact Option.map_congr fun old hold ↦ hself index old hold
  rw [Expanded, hblocks, ← List.flatMap_def, List.flatMap_singleton']
  refine List.forall₂_same.mpr fun instruction hmem ↦
    ⟨rfl, id, fun target htarget ↦ ?_, instruction.operand.retarget_id.symm⟩
  obtain ⟨found, hfound, horigin⟩ :=
    mem_origins.mp ((decode_eq_ok_iff.mp hdecode).2 instruction hmem target htarget)
  obtain ⟨index, hindex⟩ := List.mem_iff_getElem?.mp hfound
  have hstart : blockStart expand original index = index := by
    refine blockStart_of_single (fun place old hold ↦ ?_)
      (Nat.le_of_lt (List.getElem?_eq_some_iff.mp hindex).1)
    rw [hself place old hold, List.length_singleton]
  exact ⟨index, ⟨found, hindex, horigin⟩, hstart.symm ▸ ⟨found, hindex, horigin⟩⟩

/-- Whatever was recorded, a body that can be read after it was applied is an expansion of what it
was read as before. -/
theorem expanded_of_decode {pool : ConstantPool} {body : MethodBody} {editor : Editor}
    {history : List Edit} {revised : List Instruction} (hdecode : decode body.code = .ok original)
    (heditor : Editor.ofBody pool body = .ok editor)
    (hwell : ∀ edit ∈ history, ∀ instruction ∈ edit.code, instruction.WellFormed)
    (happlied : ((editor.replay history).apply body).failure = none)
    (hrevised : decode ((editor.replay history).apply body).value.code = .ok revised) :
    Expanded (fun index old ↦ (standing history index old).map Instruction.written) original
      revised := by
  cases hmodified : (editor.replay history).isModified with
  | true =>
    have htargets := targets_of_decode_apply hdecode heditor hwell hmodified happlied hrevised
    obtain ⟨again, hagain, hexpanded, -⟩ := expands_of_edited hdecode heditor hwell htargets
      hmodified happlied fun _ _ _ ↦ rfl
    obtain rfl := Except.ok.inj (hagain.symm.trans hrevised)
    exact hexpanded
  | false =>
    rw [Editor.apply, hmodified] at hrevised
    obtain rfl := Except.ok.inj (hdecode.symm.trans hrevised)
    obtain rfl := Except.ok.inj (hdecode.symm.trans (Editor.ofBody_eq_ok heditor).1)
    refine expanded_self hdecode fun index old hold ↦ ?_
    rw [standing_of_unmodified hmodified (by rwa [← Array.getElem?_toList]), List.map_singleton,
      written_of_decode hdecode old (List.mem_of_getElem? hold)]

end Unmodified

end ClassWeaver.Code
