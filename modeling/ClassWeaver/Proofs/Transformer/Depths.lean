import ClassWeaver.Proofs.Code.StackDepth
import ClassWeaver.Proofs.Transformer.Replacement

/-!
The operand stack when constructions have become calls of a factory.

Between the `dup` of a replaced construction and its constructor call there are two references on
the stack that the revised body does not have. So depths go down by two for every construction that
is under way. That is consistent as long as constructions are under way alike on all ways to an
instruction, and nothing reaches for the two references but the constructor call (`Balanced`). The
scan for constructions does not see to that: it takes the instructions in their order, and neither
follows jumps nor looks for other copies of the reference.
-/

set_option autoImplicit false
set_option relaxedAutoImplicit false

namespace ClassWeaver.Factory

open ClassFile Code

/-! ### What becomes of single instructions -/

/-- Whether an instruction is the `dup` of a replaced construction. -/
def copies (found : List Construction) (index : Nat) : Bool :=
  found.any (·.allocation + 1 == index)

/-- Whether an instruction is the constructor call of a replaced construction. -/
def completes (found : List Construction) (index : Nat) : Bool :=
  found.any (·.call == index)

/-- How the effect of an instruction changes: that of the `new` and the `dup` of a construction,
that of its constructor call, and that of any other instruction. Whether an instruction is a `dup`,
whether it is a call and whether a `dup` is behind it tells which one it is. -/
inductive Shift : (copy call ahead : Bool) → (before after : Effect) → Prop
  | allocation : Shift false false true ⟨0, 1⟩ ⟨0, 0⟩
  | copy : Shift true false false ⟨1, 2⟩ ⟨0, 0⟩
  | call (slots result : Nat) : Shift false true false ⟨slots + 1, result⟩ ⟨slots, 1⟩
  | kept (effect : Effect) : Shift false false false effect effect

namespace Shift

variable {copy call ahead : Bool} {before after : Effect} {depth under next : Nat}

theorem pops_le (h : Shift copy call ahead before after)
    (hroom : before.pops + 2 * under ≤ depth + call.toNat) :
    after.pops ≤ depth - 2 * under - copy.toNat := by
  cases h with
  | allocation => exact Nat.zero_le _
  | copy => exact Nat.zero_le _
  | _ =>
    simp only [Bool.toNat_true, Bool.toNat_false] at hroom ⊢
    omega

/-- The depth behind the instruction goes down by what is under way there. -/
theorem after_eq (h : Shift copy call ahead before after)
    (hroom : before.pops + 2 * under ≤ depth + call.toNat)
    (hvoid : call = true → before.pushes = 0)
    (hunder : next + call.toNat = under + copy.toNat) :
    after.after (depth - 2 * under - copy.toNat) =
      before.after depth - 2 * next - ahead.toNat := by
  cases h with
  | call slots result =>
    have hresult : result = 0 := hvoid rfl
    simp only [Effect.after, Bool.toNat_true, Bool.toNat_false] at hroom hunder ⊢
    omega
  | _ =>
    simp only [Effect.after, Bool.toNat_true, Bool.toNat_false] at hroom hunder ⊢
    omega

end Shift

theorem valueSlots_reference (product : String) : valueSlots ("L" ++ product ++ ";") = 1 := by
  have hne {text : String} (htext : text.toList.head? ≠ some 'L') :
      "L" ++ product ++ ";" ≠ text := by
    rintro rfl
    simp at htext
  have hlong : ¬("L" ++ product ++ ";" = "J" ∨ "L" ++ product ++ ";" = "D") :=
    not_or.mpr ⟨hne (by decide), hne (by decide)⟩
  rw [valueSlots, if_neg (hne (by decide)), if_neg hlong]

/-- A factory method takes what the constructor takes, and returns a reference. -/
theorem callEffect?_factoryDescriptor {product descriptor new : String}
    (h : factoryDescriptor product descriptor = .ok new) :
    ∃ slots result, callEffect? descriptor = some ⟨slots, result⟩ ∧
      callEffect? new = some ⟨slots, 1⟩ := by
  rw [factoryDescriptor] at h
  split at h
  · rename_i parameters result hsplit
    cases h
    have hne : "L" ++ product ++ ";" ≠ "" := by simp
    refine ⟨argumentSlots parameters, valueSlots result, ?_, ?_⟩
    · rw [callEffect?, hsplit]
      rfl
    · rw [callEffect?, Descriptor.split_join hsplit hne, ← valueSlots_reference product]
      rfl
  · cases h

/-! ### Which instruction is which -/

variable {factory : Factory} {pool larger : ConstantPool} {instructions : List Instruction}
  {found : List Construction} {history : List Edit} {index : Nat} {before : Instruction}

theorem copies_eq_true : copies found index = true ↔
    ∃ construction ∈ found, construction.allocation + 1 = index := by
  simp [copies]

theorem completes_eq_true : completes found index = true ↔
    ∃ construction ∈ found, construction.call = index := by
  simp [completes]

theorem copies_succ_eq_true : copies found (index + 1) = true ↔
    ∃ construction ∈ found, construction.allocation = index := by
  simp [copies]

/-- An instruction has one opcode, so that it plays one part only. -/
theorem flag_eq_false {flag : Bool} {opcode : Opcode}
    (hflag : flag = true → before.opcode = opcode) (hother : before.opcode ≠ opcode) :
    flag = false :=
  Bool.eq_false_iff.mpr fun h ↦ hother (hflag h)

section

variable (hfinds : Finds pool factory.product instructions [] 0 found)
  (hbefore : instructions[index]? = some before)

include hfinds hbefore

theorem opcode_of_copies (h : copies found index = true) : before.opcode = .dup := by
  obtain ⟨construction, hfound, rfl⟩ := copies_eq_true.mp h
  obtain ⟨next, hnext, hdup⟩ := (hfinds.completed construction hfound).opens.copy
  rwa [Option.some.inj (hbefore.symm.trans hnext)]

theorem opcode_of_completes (h : completes found index = true) :
    before.opcode = .invokespecial := by
  obtain ⟨construction, hfound, rfl⟩ := completes_eq_true.mp h
  obtain ⟨instruction, hcall, hconstructs⟩ := (hfinds.completed construction hfound).call
  rw [Option.some.inj (hbefore.symm.trans hcall)]
  exact (constructs?_eq_some hconstructs).1

theorem opcode_of_copies_succ (h : copies found (index + 1) = true) : before.opcode = .new := by
  obtain ⟨construction, hfound, rfl⟩ := copies_succ_eq_true.mp h
  obtain ⟨instruction, hnew, hallocates⟩ := (hfinds.completed construction hfound).opens.allocation
  rw [Option.some.inj (hbefore.symm.trans hnew)]
  exact opcode_of_allocates hallocates

/-- The effects of the instructions of a construction, and of what stands in their place. -/
theorem Rewrites.shift {other : Opcode → Operand → Effect} {after : Instruction} {effect : Effect}
    (h : Rewrites factory larger found (.replace index [after]))
    (heffect : before.effect? other pool = some effect) :
    ∃ new, after.effect? other larger = some new ∧
      Shift (copies found index) (completes found index) (copies found (index + 1)) effect new := by
  have hdup := opcode_of_copies hfinds hbefore
  have hcall := opcode_of_completes hfinds hbefore
  have hnew := opcode_of_copies_succ hfinds hbefore
  cases h with
  | @allocation construction hfound =>
    have hahead : copies found (construction.allocation + 1) = true :=
      copies_succ_eq_true.mpr ⟨construction, hfound, rfl⟩
    have hopcode := hnew hahead
    rw [hahead, flag_eq_false hdup (by rw [hopcode]; decide),
      flag_eq_false hcall (by rw [hopcode]; decide)]
    obtain rfl := Option.some.inj ((effect?_of_new hopcode).symm.trans heffect)
    exact ⟨_, effect?_plain_nop, .allocation⟩
  | @copy construction hfound =>
    have hcopy : copies found (construction.allocation + 1) = true :=
      copies_eq_true.mpr ⟨construction, hfound, rfl⟩
    have hopcode := hdup hcopy
    rw [hcopy, flag_eq_false hcall (by rw [hopcode]; decide),
      flag_eq_false hnew (by rw [hopcode]; decide)]
    obtain rfl := Option.some.inj ((effect?_of_dup hopcode).symm.trans heffect)
    exact ⟨_, effect?_plain_nop, .copy⟩
  | @call construction number descriptor hfound hdescriptor hmember =>
    have hcompletes : completes found construction.call = true :=
      completes_eq_true.mpr ⟨construction, hfound, rfl⟩
    have hopcode := hcall hcompletes
    rw [hcompletes, flag_eq_false hdup (by rw [hopcode]; decide),
      flag_eq_false hnew (by rw [hopcode]; decide)]
    obtain ⟨instruction, hcalled, hconstructs⟩ := (hfinds.completed construction hfound).call
    obtain rfl := Option.some.inj (hbefore.symm.trans hcalled)
    obtain ⟨-, place, hplace, hconstructor⟩ := constructs?_eq_some hconstructs
    obtain ⟨slots, result, hold, hcreated⟩ := callEffect?_factoryDescriptor hdescriptor
    rw [effect?_of_invokespecial hopcode hplace hconstructor, hold] at heffect
    obtain rfl := Option.some.inj heffect
    exact ⟨_, (effect?_withConstant_invokestatic hmember).trans hcreated, .call slots result⟩

/-- The next instruction follows on those of a construction, and what stands in their place does
not jump. -/
theorem Rewrites.falls {after : Instruction}
    (h : Rewrites factory larger found (.replace index [after])) :
    before.writtenOpcode.fallsThrough = true ∧ after.operand.targets = [] := by
  have hfalls {opcode : Opcode} (hopcode : before.opcode = opcode) (hldc : opcode ≠ .ldc)
      (hopcodeFalls : opcode.fallsThrough = true) : before.writtenOpcode.fallsThrough = true := by
    rwa [Instruction.writtenOpcode_of_ne (hopcode ▸ hldc), hopcode]
  cases h with
  | allocation hfound =>
    exact ⟨hfalls (opcode_of_copies_succ hfinds hbefore (copies_succ_eq_true.mpr ⟨_, hfound, rfl⟩))
      (by decide) (by decide), rfl⟩
  | copy hfound =>
    exact ⟨hfalls (opcode_of_copies hfinds hbefore (copies_eq_true.mpr ⟨_, hfound, rfl⟩))
      (by decide) (by decide), rfl⟩
  | call hfound =>
    exact ⟨hfalls (opcode_of_completes hfinds hbefore (completes_eq_true.mpr ⟨_, hfound, rfl⟩))
      (by decide) (by decide), rfl⟩

end

/-- An instruction that was not edited is not part of a construction. -/
theorem Replaces.flags_of_unedited (h : Replaces factory found pool larger history)
    (hnone : ∀ edit ∈ history, edit.index ≠ index) :
    copies found index = false ∧ completes found index = false ∧
      copies found (index + 1) = false := by
  have hkept (construction : Construction) (hfound : construction ∈ found) : index ∉
      [construction.allocation, construction.allocation + 1, construction.call] := by
    intro hindex
    obtain ⟨edit, hedit, hsame⟩ := h.covers construction hfound index hindex
    exact hnone edit hedit hsame
  simp only [Bool.eq_false_iff, ne_eq, copies_eq_true, completes_eq_true]
  refine ⟨?_, ?_, ?_⟩
  · rintro ⟨construction, hfound, rfl⟩
    exact hkept construction hfound (by simp)
  · rintro ⟨construction, hfound, rfl⟩
    exact hkept construction hfound (by simp)
  · rintro ⟨construction, hfound, hsame⟩
    exact hkept construction hfound (by simp [Nat.succ.inj hsame])

/-! ### Whole bodies -/

/-- Depths of a body that stay consistent when constructions are replaced. How many constructions
are under way at an instruction is the same whichever way leads there, and none is at the entry and
at handlers. Nothing takes the two references of a construction under way but its constructor call,
which takes one of them and gives nothing back. A `dup` of a construction is only reached from the
`new` in front of it. -/
structure Balanced (effect? : Instruction → Option Effect) (found : List Construction)
    (instructions : List Instruction) (handlers : List ExceptionHandler)
    (depth under : Nat → Nat) : Prop where
  entry : under 0 = 0
  handlers : ∀ row ∈ handlers, ∀ index, StartsAt instructions index row.handler.toNat →
    under index = 0 ∧ copies found index = false
  leads : ∀ index next, Leads instructions index next →
    under next + (completes found index).toNat = under index + (copies found index).toNat
  copies : ∀ index next, Leads instructions index next → copies found next = true →
    next = index + 1
  enough : ∀ index instruction effect, instructions[index]? = some instruction →
    effect? instruction = some effect →
      effect.pops + 2 * under index ≤ depth index + (completes found index).toNat
  void : ∀ index instruction effect, instructions[index]? = some instruction →
    effect? instruction = some effect → completes found index = true → effect.pushes = 0

/-- The depth at an instruction without the references to constructions under way. -/
def reducedDepth (found : List Construction) (depth under : Nat → Nat) (index : Nat) : Nat :=
  depth index - 2 * under index - (copies found index).toNat

section

variable {revision : Revision} {other : Opcode → Operand → Effect}
  (hone : OneForOne revision.history)
  (hsame : List.Forall₂ revision.Same revision.groups.flatten revision.revised)
  (hfinds : Finds pool factory.product revision.original [] 0 found)
  (hreplaces : Replaces factory found pool larger revision.history)

include hone hsame hfinds hreplaces

/-- Every instruction of the revised body does what its shift says. -/
theorem exists_shift {after : Instruction} (hafter : revision.revised[index]? = some after)
    (hknown : ∀ before, revision.original[index]? = some before →
      ∃ effect, before.effect? other pool = some effect) :
    ∃ before effect new, revision.original[index]? = some before ∧
      before.effect? other pool = some effect ∧ after.effect? other larger = some new ∧
        Shift (copies found index) (completes found index) (copies found (index + 1))
          effect new := by
  obtain ⟨before, hbefore, hstands⟩ := Revision.exists_same hone hsame hafter
  obtain ⟨effect, heffect⟩ := hknown before hbefore
  refine ⟨before, effect, ?_⟩
  rw [hstands.effect?]
  obtain ⟨-, hcases⟩ := hone.standing_cases index before
  generalize substitute revision.history index before = standing at hcases
  rcases hcases with hedit | ⟨hnone, rfl⟩
  · obtain ⟨new, hnew, hshift⟩ :=
      (hreplaces.rewrites _ hedit).shift hfinds hbefore heffect
    exact ⟨new, hbefore, heffect, hnew, hshift⟩
  · obtain ⟨hcopy, hcall, hahead⟩ := hreplaces.flags_of_unedited hnone
    rw [hcopy, hcall, hahead]
    exact ⟨effect, hbefore, heffect,
      Instruction.effect?_of_extends hreplaces.extending heffect, .kept effect⟩

variable (hascending : (origins revision.revised).Pairwise (· < ·))
  (hbound : ∀ origin ∈ origins revision.revised, origin < revision.newLength)

include hascending hbound

/-- What may follow in the revised body may follow in the original one, and only the next
instruction follows on a `new` of a construction. -/
theorem leads_original {next : Nat} (h : Leads revision.revised index next) :
    Leads revision.original index next ∧ (next = index + 1 ∨ copies found (index + 1) = false) := by
  cases h with
  | falls hafter hfalls hnext =>
    obtain ⟨before, hbefore, hstands⟩ := Revision.exists_same hone hsame hafter
    rw [hstands.writtenOpcode] at hfalls
    rw [Revision.length_revised hone hsame] at hnext
    refine ⟨.falls hbefore ?_ hnext, .inl rfl⟩
    rcases (hone.standing_cases index before).2 with hedit | ⟨-, hkept⟩
    · exact ((hreplaces.rewrites _ hedit).falls hfinds hbefore).1
    · rwa [hkept] at hfalls
  | jumps hafter htarget hnext =>
    obtain ⟨before, hbefore, hstands⟩ := Revision.exists_same hone hsame hafter
    obtain ⟨destination, hgoes, hoperand⟩ := hstands.operand
    rw [hoperand, Operand.targets_retarget, List.mem_map] at htarget
    obtain ⟨target, htarget, rfl⟩ := htarget
    rcases (hone.standing_cases index before).2 with hedit | ⟨hnone, hkept⟩
    · rw [((hreplaces.rewrites _ hedit).falls hfinds hbefore).2] at htarget
      exact absurd htarget List.not_mem_nil
    · have hstarts := Revision.startsAt_of_goes hone hascending hbound (hgoes target htarget) hnext
      rw [hkept] at htarget
      exact ⟨.jumps hbefore htarget hstarts, .inr (hreplaces.flags_of_unedited hnone).2.2⟩

theorem consistent_reduced {handlers moved : List ExceptionHandler} {depth under : Nat → Nat}
    (hmoved : List.Forall₂ (HandlerMoved revision.Goes) handlers moved)
    (hconsistent : Consistent (Instruction.effect? other pool) revision.original handlers depth)
    (hbalanced : Balanced (Instruction.effect? other pool) found revision.original handlers depth
      under) :
    Consistent (Instruction.effect? other larger) revision.revised moved
      (reducedDepth found depth under) := by
  have hshift {index : Nat} {after : Instruction}
      (hafter : revision.revised[index]? = some after) :=
    exists_shift hone hsame hfinds hreplaces hafter fun before hbefore ↦
      (hconsistent.enough index before hbefore).imp fun _ h ↦ h.1
  constructor
  case entry =>
    rw [reducedDepth, hconsistent.entry, Nat.zero_sub, Nat.zero_sub]
  case handlers =>
    intro row hrow index hstarts
    obtain ⟨old, hold, hrow⟩ := exists_of_forall₂ hmoved hrow
    have hstarted := Revision.startsAt_of_goes hone hascending hbound hrow.handler hstarts
    obtain ⟨hunder, hcopy⟩ := hbalanced.handlers old hold index hstarted
    rw [reducedDepth, hconsistent.handlers old hold index hstarted, hunder, hcopy]
    rfl
  case enough =>
    intro index after hafter
    obtain ⟨before, effect, new, hbefore, heffect, hnew, hshift⟩ := hshift hafter
    exact ⟨new, hnew, hshift.pops_le (hbalanced.enough index before effect hbefore heffect)⟩
  case leads =>
    intro index next hleads after new hafter hnew
    obtain ⟨hleads, hahead⟩ :=
      leads_original hone hsame hfinds hreplaces hascending hbound hleads
    obtain ⟨before, effect, shifted, hbefore, heffect, hshifted, hshift⟩ := hshift hafter
    obtain rfl := Option.some.inj (hnew.symm.trans hshifted)
    have hdepth := hshift.after_eq (hbalanced.enough index before effect hbefore heffect)
      (hbalanced.void index before effect hbefore heffect) (hbalanced.leads index next hleads)
    rw [← hconsistent.leads index next hleads before effect hbefore heffect] at hdepth
    have hcopy : copies found next = copies found (index + 1) := by
      rcases hahead with rfl | hahead
      · rfl
      · rw [hahead, Bool.eq_false_iff]
        intro hnext
        rw [hbalanced.copies index next hleads hnext, hahead] at hnext
        cases hnext
    rw [reducedDepth, reducedDepth, hcopy]
    exact hdepth.symm

end

/-! ### Edits that succeed -/

theorem Replaces.oneForOne (h : Replaces factory found pool larger history) :
    OneForOne history := by
  intro edit hedit
  cases h.rewrites edit hedit with
  | allocation => exact ⟨_, _, rfl⟩
  | copy => exact ⟨_, _, rfl⟩
  | call => exact ⟨_, _, rfl⟩

/-- What a factory brings in is well-formed and does not jump. -/
theorem Replaces.plain (h : Replaces factory found pool larger history) :
    ∀ edit ∈ history, ∀ instruction ∈ edit.code,
      instruction.WellFormed ∧ instruction.operand.targets = [] := by
  intro edit hedit instruction hinstruction
  have hnop : (Instruction.plain .nop).WellFormed := ⟨.plain, rfl, .plain⟩
  cases h.rewrites edit hedit with
  | allocation =>
    rw [List.mem_singleton.mp hinstruction]
    exact ⟨hnop, rfl⟩
  | copy =>
    rw [List.mem_singleton.mp hinstruction]
    exact ⟨hnop, rfl⟩
  | call =>
    rw [List.mem_singleton.mp hinstruction]
    exact ⟨⟨.constant, rfl, .constant _⟩, rfl⟩

variable {body : MethodBody} {editor edited : Editor} {other : Opcode → Operand → Effect}
  {depth under : Nat → Nat}

/-- A replacement of constructions that succeeds replaces every `new` of the product, each with a
`dup` behind it and a later constructor call. If the original body has consistent depths and the
constructions are balanced, the revised body has consistent depths too. Pools that were read are
indexed. -/
theorem consistent_of_balanced (hindexed : pool.Indexed)
    (heditor : Editor.ofBody pool body = .ok editor)
    (hedited : factory.editBody.run.run editor = (.ok (), edited))
    (happlied : (edited.apply body).failure = none)
    (hfound : pair pool factory.product [] editor.instructions.toList.zipIdx = .ok found)
    (hconsistent : Consistent (Instruction.effect? other pool) editor.instructions.toList
      body.handlers depth)
    (hbalanced : Balanced (Instruction.effect? other pool) found editor.instructions.toList
      body.handlers depth under) :
    (∀ index instruction, editor.instructions[index]? = some instruction →
      allocates pool factory.product instruction = .ok true →
        ∃ construction ∈ found, construction.allocation = index ∧
          Completed pool factory.product editor.instructions.toList construction) ∧
    ∃ revised reduced, decode (edited.apply body).value.code = .ok revised ∧
      Consistent (Instruction.effect? other edited.pool) revised (edited.apply body).value.handlers
        reduced := by
  obtain rfl := Editor.pool_of_ofBody heditor
  have hdecode := (Editor.ofBody_eq_ok heditor).1
  have hfinds : Finds editor.pool factory.product editor.instructions.toList [] 0 found :=
    finds_of_pair nofun hfound
  refine ⟨fun index instruction hindex hallocates ↦ ?_, ?_⟩
  · rw [← Array.getElem?_toList] at hindex
    obtain ⟨construction, hmem, hsame⟩ :=
      hfinds.later index instruction (Nat.zero_le _) hindex hallocates
    exact ⟨construction, hmem, hsame, hfinds.completed construction hmem⟩
  obtain ⟨again, larger, history, hagain, rfl, hreplaces⟩ := editBody_eq_ok hindexed hedited
  obtain rfl : found = again := Except.ok.inj (hfound.symm.trans hagain)
  -- Applying edits does not look at the pool.
  change ((editor.replay history).apply body).failure = none at happlied
  change ∃ revised reduced, decode ((editor.replay history).apply body).value.code = .ok revised ∧
    Consistent (Instruction.effect? other larger) revised
      ((editor.replay history).apply body).value.handlers reduced
  cases hmodified : (editor.replay history).isModified with
  | false =>
    rw [Editor.apply, hmodified]
    exact ⟨_, depth, hdecode, hconsistent.of_extends hreplaces.extending⟩
  | true =>
    have hplain := hreplaces.plain
    obtain ⟨hrevised, hlength, hsame, hmoved⟩ := decode_apply_replay hdecode heditor
      (fun edit hedit instruction hmem ↦ (hplain edit hedit instruction hmem).1)
      (fun edit hedit instruction hmem target htarget ↦ by
        rw [(hplain edit hedit instruction hmem).2] at htarget
        cases htarget) hmodified happlied
    obtain ⟨-, htiled⟩ := readFrom_eq_ok (Nat.le_refl _) (decode_eq_ok_iff.mp hrevised).1
    have hbound : ∀ origin ∈ origins (editor.revision history body.code.length).revised,
        origin < (editor.revision history body.code.length).newLength :=
      fun origin hmem ↦ by simpa [hlength] using (htiled.bounds origin hmem).2
    exact ⟨_, _, hrevised, consistent_reduced hreplaces.oneForOne hsame hfinds hreplaces
      htiled.pairwise_origins hbound hmoved.handlers hconsistent hbalanced⟩

/-! ### One construction, with and without another copy -/

/-- Constructions of a `p/T` become calls of `p/F.m`. -/
def sample : Factory :=
  ⟨"p/A", "p/T", "p/F", "m", .skip⟩

/-- What a body needs to construct a `p/T`. -/
def samplePool : ConstantPool :=
  ⟨#[none, some (.utf8 "p/T"), some (.classRef 1), some (.utf8 "<init>"), some (.utf8 "()V"),
    some (.nameAndType 3 4), some (.methodRef 2 5)]⟩

/-- The pool with the method of the factory in it. -/
def samplePoolGrown : ConstantPool :=
  ⟨samplePool.slots ++ #[some (.utf8 "p/F"), some (.classRef 7), some (.utf8 "m"),
    some (.utf8 "()Lp/T;"), some (.nameAndType 9 10), some (.methodRef 8 11)]⟩

theorem split_unit : Descriptor.split "()V" = some ([], "V") :=
  Descriptor.split_eq_some.mpr ⟨[], [], by decide, by decide,
    by rw [Descriptor.parameters, if_pos rfl], rfl, rfl⟩

theorem factoryDescriptor_unit : factoryDescriptor "p/T" "()V" = .ok "()Lp/T;" := by
  rw [factoryDescriptor, split_unit]
  rfl

theorem addMethodRef_samplePool :
    (ConstantPool.addMethodRef ⟨"p/F", "m", "()Lp/T;"⟩).run.run samplePool =
      (.ok 12, samplePoolGrown) :=
  edit_bind_eq_ok.mpr ⟨8, _,
    edit_bind_eq_ok.mpr ⟨7, _, ConstantPool.intern_of_not_mem (by decide) (by decide) rfl,
      ConstantPool.intern_of_not_mem (by decide) (by decide) rfl⟩,
    edit_bind_eq_ok.mpr ⟨11, _,
      edit_bind_eq_ok.mpr ⟨9, _, ConstantPool.intern_of_not_mem (by decide) (by decide) rfl,
        edit_bind_eq_ok.mpr ⟨10, _, ConstantPool.intern_of_not_mem (by decide) (by decide) rfl,
          ConstantPool.intern_of_not_mem (by decide) (by decide) rfl⟩⟩,
      ConstantPool.intern_of_not_mem (by decide) (by decide) rfl⟩⟩

/-- What all instructions do but those whose effects are fixed. -/
def takeOne : Opcode → Operand → Effect :=
  fun _ _ ↦ ⟨1, 0⟩

theorem effect?_constructorCall (origin : Option Nat) :
    Instruction.effect? takeOne samplePool ⟨.invokespecial, .constant 6, origin⟩ =
      some ⟨1, 0⟩ := by
  have hcall : callEffect? "()V" = some ⟨0, 0⟩ := by
    rw [callEffect?, split_unit]
    rfl
  exact (effect?_of_invokespecial rfl rfl rfl).trans (congrArg (Option.map _) hcall)

/-- A `new`, its `dup`, the constructor call and an `areturn`. -/
def constructing : MethodBody :=
  ⟨2, 0, [0xbb, 0, 2, 0x59, 0xb7, 0, 6, 0xb0], [], []⟩

def constructingEditor : Editor :=
  ⟨samplePool, #[⟨.new, .constant 2, some 0⟩, ⟨.dup, .none, some 3⟩,
    ⟨.invokespecial, .constant 6, some 4⟩, ⟨0xb0, .none, some 7⟩], ∅, ∅, 0⟩

/-- The construction is under way at its constructor call only. -/
theorem consistent_of_balanced_constructing :
    ∃ edited, sample.editBody.run.run constructingEditor = (.ok (), edited) ∧
      ∃ revised reduced, decode (edited.apply constructing).value.code = .ok revised ∧
        Consistent (Instruction.effect? takeOne edited.pool) revised
          (edited.apply constructing).value.handlers reduced := by
  have hedited : sample.editBody.run.run constructingEditor = (.ok (), _) :=
    editBody_of_provides rfl (.cons factoryDescriptor_unit addMethodRef_samplePool (.nil _))
  have hplain : ∀ instruction ∈ constructingEditor.instructions.toList,
      instruction.operand.targets = [] := by decide
  have heffects : constructingEditor.instructions.toList.map
      (Instruction.effect? takeOne samplePool) =
        [⟨0, 1⟩, ⟨1, 2⟩, ⟨1, 0⟩, ⟨1, 0⟩].map some := by
    simp only [constructingEditor, List.map_cons, List.map_nil, effect?_constructorCall]
    rfl
  have hconsistent : Consistent (Instruction.effect? takeOne samplePool)
      constructingEditor.instructions.toList [] fun index ↦ [0, 1, 2, 1].getD index 0 :=
    consistent_of_straight hplain heffects rfl (by decide) (by decide)
  have hbalanced : Balanced (Instruction.effect? takeOne samplePool) [⟨0, 2, "()V"⟩]
      constructingEditor.instructions.toList [] (fun index ↦ [0, 1, 2, 1].getD index 0)
        fun index ↦ [0, 0, 1, 0].getD index 0 := by
    constructor
    case entry => rfl
    case handlers => nofun
    case leads =>
      intro index next hleads
      obtain ⟨rfl, hlength⟩ := hleads.eq_succ hplain
      have hlt : index < 3 := Nat.lt_of_succ_lt_succ hlength
      clear hleads hlength
      revert index
      decide
    case copies => exact fun index next hleads _ ↦ (hleads.eq_succ hplain).1
    case enough =>
      intro index instruction effect hindex heffect
      obtain ⟨hlt, rfl⟩ := List.getElem?_eq_some_iff.mp (getElem?_effects heffects hindex heffect)
      clear hindex heffect
      revert index
      decide
    case void =>
      intro index instruction effect hindex heffect
      obtain ⟨hlt, rfl⟩ := List.getElem?_eq_some_iff.mp (getElem?_effects heffects hindex heffect)
      clear hindex heffect
      revert index
      decide
  exact ⟨_, hedited, (consistent_of_balanced ⟨rfl, by decide⟩
    (show Editor.ofBody samplePool constructing = .ok constructingEditor from rfl) hedited rfl rfl
    hconsistent hbalanced).2⟩

/-- One more `dup`, and a `pop` for its copy behind the constructor call. -/
def copying : MethodBody :=
  ⟨3, 0, [0xbb, 0, 2, 0x59, 0x59, 0xb7, 0, 6, 0x57, 0xb0], [], []⟩

def copyingEditor : Editor :=
  ⟨samplePool, #[⟨.new, .constant 2, some 0⟩, ⟨.dup, .none, some 3⟩, ⟨.dup, .none, some 4⟩,
    ⟨.invokespecial, .constant 6, some 5⟩, ⟨.pop, .none, some 8⟩, ⟨0xb0, .none, some 9⟩], ∅, ∅, 0⟩

/-- The second `dup` stays, and finds nothing on the stack. -/
theorem not_consistent_copying :
    Editor.ofBody samplePool copying = .ok copyingEditor ∧
      (∃ depth, Consistent (Instruction.effect? takeOne samplePool)
        copyingEditor.instructions.toList copying.handlers depth) ∧
      ∃ edited, sample.editBody.run.run copyingEditor = (.ok (), edited) ∧
        (edited.apply copying).failure = none ∧
        ∃ revised, decode (edited.apply copying).value.code = .ok revised ∧
          ∀ depth, ¬ Consistent (Instruction.effect? takeOne edited.pool) revised
            (edited.apply copying).value.handlers depth := by
  have hedited : sample.editBody.run.run copyingEditor = (.ok (), _) :=
    editBody_of_provides rfl (.cons factoryDescriptor_unit addMethodRef_samplePool (.nil _))
  have heffects : copyingEditor.instructions.toList.map
      (Instruction.effect? takeOne samplePool) =
        [⟨0, 1⟩, ⟨1, 2⟩, ⟨1, 2⟩, ⟨1, 0⟩, ⟨1, 0⟩, ⟨1, 0⟩].map some := by
    simp only [copyingEditor, List.map_cons, List.map_nil, effect?_constructorCall]
    rfl
  refine ⟨rfl, ⟨fun index ↦ [0, 1, 2, 3, 2, 1].getD index 0,
    consistent_of_straight (by decide) heffects rfl (by decide) (by decide)⟩,
      _, hedited, rfl, _, rfl, fun depth hconsistent ↦ ?_⟩
  have hfirst : depth 1 = depth 0 :=
    hconsistent.leads 0 1 (.falls rfl rfl (by decide)) _ _ rfl rfl
  have hsecond : depth 2 = depth 1 :=
    hconsistent.leads 1 2 (.falls rfl rfl (by decide)) _ _ rfl rfl
  obtain ⟨effect, heffect, henough⟩ := hconsistent.enough 2 _ rfl
  obtain rfl : ⟨1, 2⟩ = effect := Option.some.inj heffect
  rw [hsecond, hfirst, hconsistent.entry] at henough
  cases henough

end ClassWeaver.Factory
