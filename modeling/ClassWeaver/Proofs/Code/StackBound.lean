import ClassWeaver.Proofs.Code.Flow

/-!
How deep the operand stack gets in a body, and in one with code in front of its instructions.

Every instruction of a body takes some slots off the stack and puts some there; which ones is left
open. The depths that control gets to an instruction with are those that some way through the body
leads to (`Reaches`). Code that was put in front of an instruction, that only falls through and that
leaves the stack as deep as it was, makes the stack deeper for a while. Control gets to everything
else with depths that it got there with before (`Expands.depthInBlock`), so what the new code needs
on top decides whether a bound still holds (`Expands.depthsWithin_iff`).
-/

set_option autoImplicit false
set_option relaxedAutoImplicit false

namespace ClassWeaver.Code

open ClassFile

/-! ### Effects one after the other -/

/-- The depth behind an instruction, unless it takes more than is there. -/
def Effect.behind? (effect : Effect) (depth : Nat) : Option Nat :=
  if effect.pops ≤ depth then some (effect.after depth) else none

/-- The depth behind instructions that run one after the other. -/
def depthBehind? (effects : List Effect) (depth : Nat) : Option Nat :=
  effects.foldlM (fun depth effect ↦ effect.behind? depth) depth

section Effects

variable {effect : Effect} {effects : List Effect} {depth after offset : Nat}

theorem Effect.behind?_eq_some :
    effect.behind? depth = some after ↔ effect.pops ≤ depth ∧ effect.after depth = after := by
  rw [behind?]
  split <;> simp [*]

theorem Effect.behind?_add (h : effect.behind? depth = some after) (more : Nat) :
    effect.behind? (depth + more) = some (after + more) := by
  obtain ⟨henough, rfl⟩ := behind?_eq_some.mp h
  refine behind?_eq_some.mpr ⟨Nat.le_add_right_of_le henough, ?_⟩
  rw [Effect.after, Effect.after]
  omega

/-- On a deeper stack the same happens further up. -/
theorem depthBehind?_add (h : depthBehind? effects depth = some after) (more : Nat) :
    depthBehind? effects (depth + more) = some (after + more) := by
  induction effects generalizing depth with
  | nil =>
    obtain rfl := Option.some.inj h
    rfl
  | cons effect rest ih =>
    obtain ⟨between, hfirst, hrest⟩ := Option.bind_eq_some_iff.mp (List.foldlM_cons.symm.trans h)
    exact List.foldlM_cons.trans
      (Option.bind_eq_some_iff.mpr ⟨_, Effect.behind?_add hfirst more, ih hrest⟩)

theorem depthBehind?_append (front back : List Effect) (depth : Nat) :
    depthBehind? (front ++ back) depth = (depthBehind? front depth).bind (depthBehind? back) :=
  List.foldlM_append

theorem depthBehind?_singleton (effect : Effect) : depthBehind? [effect] = effect.behind? :=
  funext fun _ ↦ List.foldlM_cons.trans (bind_pure _)

theorem depthBehind?_take_succ (heffect : effects[offset]? = some effect) :
    depthBehind? (effects.take (offset + 1)) depth =
      (depthBehind? (effects.take offset) depth).bind effect.behind? := by
  rw [List.take_add_one, heffect, depthBehind?_append, Option.toList_some, depthBehind?_singleton]

theorem exists_depthBehind?_take (h : depthBehind? effects depth = some after) (offset : Nat) :
    ∃ between, depthBehind? (effects.take offset) depth = some between := by
  rw [← List.take_append_drop offset effects, depthBehind?_append] at h
  obtain ⟨between, hbetween, -⟩ := Option.bind_eq_some_iff.mp h
  exact ⟨between, hbetween⟩

/-- Effects that leave the stack as deep as it was. They go through on at least `needs` slots, and
`rise` slots come on top of these for a while; on fewer slots, nothing comes on top. -/
structure Level (needs rise : Nat) (effects : List Effect) : Prop where
  same : depthBehind? effects needs = some needs
  rises : ∀ offset ≤ effects.length, ∀ after ∈ depthBehind? (effects.take offset) needs,
    after ≤ needs + rise
  peak : ∃ offset ≤ effects.length,
    depthBehind? (effects.take offset) needs = some (needs + rise)
  short : ∀ depth < needs, ∀ offset ≤ effects.length,
    ∀ after ∈ depthBehind? (effects.take offset) depth, after ≤ depth

theorem level_nil : Level 0 0 [] where
  same := rfl
  rises _ _ _ hafter := by
    rw [List.take_nil] at hafter
    exact Nat.le_of_eq (Option.some.inj hafter).symm
  peak := ⟨0, Nat.le_refl _, rfl⟩
  short _ hlt := absurd hlt (Nat.not_lt_zero _)

namespace Level

variable {needs rise : Nat} (h : Level needs rise effects)

include h

theorem through (hneeds : needs ≤ depth) : depthBehind? effects depth = some depth := by
  obtain ⟨more, rfl⟩ := Nat.exists_eq_add_of_le hneeds
  exact depthBehind?_add h.same more

theorem eq_of_behind (hafter : depthBehind? effects depth = some after) : after = depth := by
  have hdeep := h.through (Nat.le_add_left needs depth)
  exact Nat.add_right_cancel (Option.some.inj ((depthBehind?_add hafter needs).symm.trans hdeep))

theorem le_add_rise (hoffset : offset ≤ effects.length) (hneeds : needs ≤ depth)
    (hafter : depthBehind? (effects.take offset) depth = some after) : after ≤ depth + rise := by
  obtain ⟨more, rfl⟩ := Nat.exists_eq_add_of_le hneeds
  obtain ⟨between, hbetween⟩ := exists_depthBehind?_take h.same offset
  have hle := h.rises offset hoffset between hbetween
  have hsame := Option.some.inj ((depthBehind?_add hbetween more).symm.trans hafter)
  omega

theorem exists_peak (hneeds : needs ≤ depth) : ∃ offset ≤ effects.length,
    depthBehind? (effects.take offset) depth = some (depth + rise) := by
  obtain ⟨more, rfl⟩ := Nat.exists_eq_add_of_le hneeds
  obtain ⟨offset, hoffset, hpeak⟩ := h.peak
  exact ⟨offset, hoffset, Nat.add_right_comm needs more rise ▸ depthBehind?_add hpeak more⟩

end Level

end Effects

/-! ### Depths -/

/-- Depths that control gets to an instruction with. It gets past an instruction that finds enough
on the stack, and a handler finds nothing but the exception there. -/
inductive Reaches (instructions : List Instruction) (handlers : List ExceptionHandler)
    (effects : Nat → Effect) : Nat → Nat → Prop
  | entry (hnonempty : 0 < instructions.length) : Reaches instructions handlers effects 0 0
  | completes {way : Way} {index next depth after : Nat}
      (hreaches : Reaches instructions handlers effects index depth)
      (heffect : (effects index).behind? depth = some after) (hway : way ≠ .handles)
      (hflows : Flows instructions handlers way index next) :
      Reaches instructions handlers effects next after
  | fails {index next depth : Nat} (hreaches : Reaches instructions handlers effects index depth)
      (hflows : Flows instructions handlers .handles index next) :
      Reaches instructions handlers effects next 1

/-- The stack gets nowhere deeper than `limit`. -/
def DepthsWithin (limit : Nat) (instructions : List Instruction)
    (handlers : List ExceptionHandler) (effects : Nat → Effect) : Prop :=
  ∀ index depth, Reaches instructions handlers effects index depth → depth ≤ limit

/-! ### Ways through an expansion -/

/-- An instruction that control falls through. -/
structure Instruction.FallsOnly (instruction : Instruction) : Prop where
  targets : instruction.operand.targets = []
  falls : instruction.opcode.fallsThrough = true

section Ways

variable {expand : Nat → Instruction → List Instruction} {original revised : List Instruction}
  {old new : MethodBody} {source place next offset moved : Nat}

/-- An offset in a table is behind the start of an instruction if and only if the offset that it has
become is behind the start of what stands in the block of that instruction. -/
theorem Shifts.le_iff (hdecode : decode old.code = .ok original)
    (hrevised : decode new.code = .ok revised)
    (h : Shifts expand original revised old.code.length new.code.length offset moved)
    {before after : Nat} (hindex : StartsAt original source before)
    (hplace : StartsAt revised place after)
    (hblock : blockStart expand original source ≤ place)
    (hbehind : place < blockStart expand original (source + 1)) :
    offset ≤ before ↔ moved ≤ after := by
  obtain ⟨hascending, hbound, -⟩ := origins_of_decode hdecode
  obtain ⟨hascendingNew, hboundNew, -⟩ := origins_of_decode hrevised
  rcases h.stop_or_lands with ⟨rfl, rfl⟩ | ⟨other, hother, hotherNew⟩
  · exact iff_of_false (Nat.not_le.mpr (hbound _ hindex.mem_origins))
      (Nat.not_le.mpr (hboundNew _ hplace.mem_origins))
  · rcases Nat.lt_or_ge source other with hbeyond | hahead
    · have hlt : place < blockStart expand original other :=
        Nat.lt_of_lt_of_le hbehind (blockStart_mono hbeyond)
      exact iff_of_false (Nat.not_le.mpr (hindex.lt hascending hother hbeyond))
        (Nat.not_le.mpr (hplace.lt hascendingNew hotherNew hlt))
    · exact iff_of_true (hother.le hascending hindex hahead) (hotherNew.le hascendingNew hplace
        (Nat.le_trans (blockStart_mono hahead) hblock))

/-- Where a handler or a jump leads, the block of an instruction starts. -/
theorem Lands.exists_block (hrevised : decode new.code = .ok revised)
    (h : Lands expand original revised offset moved) (hnext : StartsAt revised next moved) :
    ∃ target, next = blockStart expand original target ∧ StartsAt original target offset := by
  obtain ⟨target, htarget, hstart⟩ := h
  exact ⟨target, hnext.unique (origins_of_decode hrevised).1 hstart, htarget⟩

/-- A row covers all of a block or nothing of it, as it has covered the instruction. -/
theorem HandlerMoved.covers_iff (hdecode : decode old.code = .ok original)
    (hrevised : decode new.code = .ok revised) {row rowNew : ExceptionHandler}
    (h : HandlerMoved (Shifts expand original revised old.code.length new.code.length) row rowNew)
    {before after : Nat} (hindex : StartsAt original source before)
    (hplace : StartsAt revised place after)
    (hblock : blockStart expand original source ≤ place)
    (hbehind : place < blockStart expand original (source + 1)) :
    row.start.toNat ≤ before ∧ before < row.stop.toNat ↔
      rowNew.start.toNat ≤ after ∧ after < rowNew.stop.toNat := by
  have hstart := h.start.le_iff hdecode hrevised hindex hplace hblock hbehind
  have hstop := h.stop.le_iff hdecode hrevised hindex hplace hblock hbehind
  exact and_congr hstart (Nat.not_le.symm.trans (hstop.not.trans Nat.not_le))

section Handles

variable (hdecode : decode old.code = .ok original)
  (h : Expands expand original revised old new)
  (hblock : blockStart expand original source ≤ place)
  (hbehind : place < blockStart expand original (source + 1))

include hdecode h hblock hbehind

/-- What a block fails to is the block of something that the instruction has failed to. -/
theorem Expands.handles_source {instruction : Instruction}
    (hsource : original[source]? = some instruction)
    (hflows : Flows revised new.handlers .handles place next) :
    ∃ target, next = blockStart expand original target ∧
      Flows original old.handlers .handles source target := by
  cases hflows with
  | handles hrow hindex hstart hstop hnext =>
    obtain ⟨row, hold, hmoved⟩ := exists_of_forall₂ h.tables.handlers hrow
    have hlt := (origins_of_decode h.code).2.1 _ hnext.mem_origins
    have hhandler := hmoved.handler.stop_or_lands.resolve_left fun hend ↦ Nat.ne_of_lt hlt hend.2
    obtain ⟨target, rfl, htarget⟩ := hhandler.exists_block h.code hnext
    obtain ⟨before, hbefore⟩ :=
      (origins_of_decode hdecode).2.2 instruction (List.mem_of_getElem? hsource)
    have hsourceStart : StartsAt original source before := ⟨instruction, hsource, hbefore⟩
    have hcovers := hmoved.covers_iff hdecode h.code hsourceStart hindex hblock hbehind
    obtain ⟨hfrom, hto⟩ := hcovers.mpr ⟨hstart, hstop⟩
    exact ⟨target, rfl, .handles hold hsourceStart hfrom hto htarget⟩

/-- What the instruction has failed to, all of its block fails to. -/
theorem Expands.handles_block (hplace : place < revised.length)
    (hflows : Flows original old.handlers .handles source next) :
    Flows revised new.handlers .handles place (blockStart expand original next) := by
  cases hflows with
  | handles hrow hindex hstart hstop hnext =>
    obtain ⟨row, hnew, hmoved⟩ := exists_of_forall₂ h.tables.handlers.flip hrow
    obtain ⟨hascending, hbound, -⟩ := origins_of_decode hdecode
    obtain ⟨other, hother, hotherNew⟩ := hmoved.handler.lands (hbound _ hnext.mem_origins)
    obtain rfl := hother.unique hascending hnext
    obtain ⟨after, hafter⟩ :=
      (origins_of_decode h.code).2.2 revised[place] (List.getElem_mem hplace)
    have hplaceStart : StartsAt revised place after :=
      ⟨_, List.getElem?_eq_getElem hplace, hafter⟩
    have hcovers := hmoved.covers_iff hdecode h.code hindex hplaceStart hblock hbehind
    obtain ⟨hfrom, hto⟩ := hcovers.mp ⟨hstart, hstop⟩
    exact .handles hnew hplaceStart hfrom hto hotherNew

end Handles

end Ways

/-! ### Code in front of instructions -/

/-- What the instructions of an expansion do: those that were put in front of others what `inserted`
says, and the others what they did. -/
def carried (inserted : Instruction → Effect) (front : Nat → Instruction → List Instruction)
    (original : List Instruction) (effects : Nat → Effect) (place : Nat) : Effect :=
  (original.mapIdx fun index old ↦
    (front index old).map inserted ++ [effects index]).flatten.getD place ⟨0, 0⟩

/-- Nothing in front of instructions jumps, and it leaves the stack as deep as it was, if the
instruction behind it finds enough there. For a while, `rise` slots come on top. -/
structure Neutral (inserted : Instruction → Effect) (front : Nat → Instruction → List Instruction)
    (needs rise : Nat → Instruction → Nat) (original : List Instruction)
    (effects : Nat → Effect) : Prop where
  falls : ∀ index old, original[index]? = some old →
    ∀ instruction ∈ front index old, instruction.FallsOnly
  level : ∀ index old, original[index]? = some old →
    Level (needs index old) (rise index old) ((front index old).map inserted)
  enough : ∀ index old, original[index]? = some old → needs index old ≤ (effects index).pops

section Front

variable {front : Nat → Instruction → List Instruction} {original revised : List Instruction}
  {old new : MethodBody} {inserted : Instruction → Effect} {effects : Nat → Effect}
  {source place next offset depth after limit : Nat} {instruction : Instruction} {way : Way}

theorem lt_blockStart_succ (hsource : original[source]? = some instruction)
    (hoffset : offset ≤ (front source instruction).length) :
    blockStart (inFront front) original source + offset <
      blockStart (inFront front) original (source + 1) := by
  rw [blockStart_inFront_succ hsource]
  exact Nat.lt_succ_of_le (Nat.add_le_add_left hoffset _)

theorem Expands.lt_length (h : Expands (inFront front) original revised old new)
    (hlt : blockStart (inFront front) original source < revised.length) :
    source < original.length := by
  by_contra hbeyond
  have hall : blockStart (inFront front) original source = revised.length := by
    rw [blockStart, List.take_of_length_le (by simpa using hbeyond), h.instructions.length_eq]
  exact Nat.ne_of_lt hlt hall

theorem length_flatten_take_mapIdx {α β : Type} {first : Nat → Instruction → List α}
    {second : Nat → Instruction → List β}
    (h : ∀ index old, (first index old).length = (second index old).length) (index : Nat) :
    ((original.mapIdx first).take index).flatten.length =
      ((original.mapIdx second).take index).flatten.length := by
  have hlengths : (original.mapIdx first).map List.length =
      (original.mapIdx second).map List.length := by
    apply List.ext_getElem?
    intro place
    simp only [List.getElem?_map, List.getElem?_mapIdx, Option.map_map]
    exact Option.map_congr fun old _ ↦ h place old
  rw [List.length_flatten, List.length_flatten, List.map_take, List.map_take, hlengths]

theorem carried_blockStart {effect : Effect} (hsource : original[source]? = some instruction)
    (heffect : ((front source instruction).map inserted ++ [effects source])[offset]? =
      some effect) :
    carried inserted front original effects (blockStart (inFront front) original source + offset) =
      effect := by
  have hgroup : (original.mapIdx fun index old ↦
      (front index old).map inserted ++ [effects index])[source]? =
        some ((front source instruction).map inserted ++ [effects source]) := by
    rw [List.getElem?_mapIdx, hsource]
    rfl
  have hstart : blockStart (inFront front) original source =
      ((original.mapIdx fun index old ↦
        (front index old).map inserted ++ [effects index]).take source).flatten.length :=
    length_flatten_take_mapIdx (fun index old ↦ by simp [inFront]) source
  rw [carried, hstart, List.getD_eq_getElem?_getD, flatten_eq_append hgroup,
    List.getElem?_append_right (Nat.le_add_right _ _), Nat.add_sub_cancel_left,
    List.getElem?_append_left (List.getElem?_eq_some_iff.mp heffect).1, heffect]
  rfl

theorem carried_front (hsource : original[source]? = some instruction)
    (hoffset : offset < ((front source instruction).map inserted).length) :
    carried inserted front original effects (blockStart (inFront front) original source + offset) =
      ((front source instruction).map inserted)[offset] :=
  carried_blockStart hsource (by
    rw [List.getElem?_append_left hoffset, List.getElem?_eq_getElem hoffset])

theorem carried_behind (hsource : original[source]? = some instruction) :
    carried inserted front original effects
      (blockStart (inFront front) original source + (front source instruction).length) =
        effects source :=
  carried_blockStart hsource (by simp)

/-- The code in front of an instruction is in the expansion as it is. -/
theorem Expands.getElem?_front (h : Expands (inFront front) original revised old new)
    (hsource : original[source]? = some instruction)
    (hfalls : ∀ put ∈ front source instruction, put.FallsOnly)
    (hoffset : offset < (front source instruction).length) :
    ∃ found, revised[blockStart (inFront front) original source + offset]? = some found ∧
      found.FallsOnly := by
  have hput : (inFront front source instruction)[offset]? =
      some (front source instruction)[offset] := by
    rw [inFront, List.getElem?_append_left hoffset, List.getElem?_eq_getElem hoffset]
  obtain ⟨found, hfound, hopcode, destination, -, hoperand⟩ := h.instructions.getElem? hsource hput
  obtain ⟨hnone, hthrough⟩ := hfalls _ (List.getElem_mem hoffset)
  refine ⟨found, hfound, ?_, hopcode ▸ hthrough⟩
  rw [hoperand, Operand.targets_retarget, hnone, List.map_nil]

/-- What control does not fall through was there before. -/
theorem Expands.exists_behind (h : Expands (inFront front) original revised old new)
    (hfalls : ∀ index old, original[index]? = some old →
      ∀ put ∈ front index old, put.FallsOnly)
    (hplace : revised[place]? = some instruction)
    (hstops : instruction.opcode.fallsThrough = false) :
    ∃ index before, original[index]? = some before ∧
      place = blockStart (inFront front) original index + (front index before).length ∧
        instruction.opcode = before.opcode := by
  obtain ⟨index, before, offset, found, hbefore, hfound, rfl, hmatches⟩ :=
    h.instructions.exists_before hplace
  refine ⟨index, before, hbefore, ?_⟩
  rw [inFront] at hfound
  rcases Nat.lt_or_ge offset (front index before).length with hinside | hbehind
  · rw [List.getElem?_append_left hinside] at hfound
    have hthrough := (hfalls index before hbefore found (List.mem_of_getElem? hfound)).falls
    rw [← hmatches.opcode, hstops] at hthrough
    cases hthrough
  · rw [List.getElem?_append_right hbehind] at hfound
    obtain ⟨hsingle, rfl⟩ := List.getElem?_eq_some_iff.mp hfound
    obtain rfl : offset = (front index before).length :=
      Nat.le_antisymm (Nat.sub_eq_zero_iff_le.mp (Nat.lt_one_iff.mp hsingle)) hbehind
    exact ⟨rfl, hmatches.opcode.trans (congrArg Instruction.opcode (by simp))⟩

/-- Control falls through the code in front of an instruction. -/
theorem Expands.flows_front_iff (h : Expands (inFront front) original revised old new)
    (hsource : original[source]? = some instruction)
    (hfalls : ∀ put ∈ front source instruction, put.FallsOnly)
    (hoffset : offset < (front source instruction).length) (hway : way ≠ .handles) :
    Flows revised new.handlers way (blockStart (inFront front) original source + offset) next ↔
      way = .falls ∧ next = blockStart (inFront front) original source + (offset + 1) := by
  obtain ⟨found, hfound, hnone, hthrough⟩ := h.getElem?_front hsource hfalls hoffset
  constructor
  · intro hflows
    cases hflows with
    | falls hindex _ _ => exact ⟨rfl, rfl⟩
    | jumps hindex htarget _ =>
      obtain rfl := Option.some.inj (hfound.symm.trans hindex)
      rw [hnone] at htarget
      cases htarget
    | resumes hindex hret _ _ _ =>
      obtain rfl := Option.some.inj (hfound.symm.trans hindex)
      rw [hret] at hthrough
      cases hthrough
    | handles _ _ _ _ _ => exact absurd rfl hway
  · rintro ⟨rfl, rfl⟩
    obtain ⟨last, hlast, -⟩ := h.getElem?_behind hsource
    have hlt := (List.getElem?_eq_some_iff.mp hlast).1
    exact .falls hfound hthrough (by omega)

/-- An instruction that was there before leads to what stands in front of those it has led to. -/
theorem Expands.flows_behind_iff (hdecode : decode old.code = .ok original)
    (h : Expands (inFront front) original revised old new)
    (hfalls : ∀ index old, original[index]? = some old →
      ∀ instruction ∈ front index old, instruction.FallsOnly)
    (hsource : original[source]? = some instruction) (hway : way ≠ .handles) :
    Flows revised new.handlers way (blockStart (inFront front) original source +
        (front source instruction).length) next ↔
      ∃ target, next = blockStart (inFront front) original target ∧
        Flows original old.handlers way source target := by
  constructor
  · obtain ⟨last, hlast, hopcode, destination, hlands, hoperand⟩ := h.getElem?_behind hsource
    intro hflows
    cases hflows with
    | falls hindex hthrough hnext =>
      obtain rfl := Option.some.inj (hlast.symm.trans hindex)
      rw [← blockStart_inFront_succ hsource] at hnext ⊢
      exact ⟨source + 1, rfl, .falls hsource (hopcode ▸ hthrough) (h.lt_length hnext)⟩
    | jumps hindex htarget hnext =>
      obtain rfl := Option.some.inj (hlast.symm.trans hindex)
      rw [hoperand, Operand.targets_retarget] at htarget
      obtain ⟨before, hbefore, rfl⟩ := List.mem_map.mp htarget
      obtain ⟨target, rfl, hstart⟩ := (hlands before hbefore).exists_block h.code hnext
      exact ⟨target, rfl, .jumps hsource hbefore hstart⟩
    | @resumes _ _ _ caller hindex hret hcall hjsr hnext =>
      obtain rfl := Option.some.inj (hlast.symm.trans hindex)
      have hstops : caller.opcode.fallsThrough = false := by
        rcases hjsr with hjsr | hjsr <;> rw [hjsr] <;> rfl
      obtain ⟨call, caller, hcaller, rfl, hsame⟩ := h.exists_behind hfalls hcall hstops
      rw [← blockStart_inFront_succ hcaller] at hnext ⊢
      exact ⟨call + 1, rfl, .resumes hsource (hopcode ▸ hret) hcaller (hsame ▸ hjsr)
        (h.lt_length hnext)⟩
    | handles _ _ _ _ _ => exact absurd rfl hway
  · rintro ⟨target, rfl, hflows⟩
    exact hflows.moved hdecode h hsource

theorem Flows.exists_source {instructions : List Instruction}
    {handlers : List ExceptionHandler} (h : Flows instructions handlers way source next) :
    ∃ instruction, instructions[source]? = some instruction := by
  cases h with
  | falls hindex _ _ | jumps hindex _ _ | resumes hindex _ _ _ _ => exact ⟨_, hindex⟩
  | handles _ hindex _ _ _ =>
    obtain ⟨instruction, hinstruction, -⟩ := hindex
    exact ⟨instruction, hinstruction⟩

theorem Flows.lt_length {instructions : List Instruction}
    {handlers : List ExceptionHandler} (h : Flows instructions handlers way source next) :
    next < instructions.length := by
  cases h with
  | falls _ _ hnext | resumes _ _ _ _ hnext => exact hnext
  | jumps _ _ hnext | handles _ _ _ _ hnext =>
    obtain ⟨instruction, hinstruction, -⟩ := hnext
    exact (List.getElem?_eq_some_iff.mp hinstruction).1

/-- Depths in the block of an instruction, from one that the instruction was reached with. -/
inductive DepthInBlock (inserted : Instruction → Effect)
    (front : Nat → Instruction → List Instruction) (original : List Instruction)
    (handlers : List ExceptionHandler) (effects : Nat → Effect) : Nat → Nat → Prop
  | intro {index offset depth after : Nat} {instruction : Instruction}
      (hsource : original[index]? = some instruction)
      (hoffset : offset ≤ (front index instruction).length)
      (hreaches : Reaches original handlers effects index depth)
      (hafter : depthBehind? (((front index instruction).map inserted).take offset) depth =
        some after) :
      DepthInBlock inserted front original handlers effects
        (blockStart (inFront front) original index + offset) after

section Depths

variable {needs rise : Nat → Instruction → Nat}
  (hneutral : Neutral inserted front needs rise original effects)
  (hdecode : decode old.code = .ok original)
  (h : Expands (inFront front) original revised old new)

include hneutral h

/-- Behind some of the code in front of an instruction, the stack is as deep as that code makes
it. -/
theorem Expands.reaches_front (hsource : original[source]? = some instruction)
    (hreaches : Reaches revised new.handlers (carried inserted front original effects)
      (blockStart (inFront front) original source) depth)
    (hoffset : offset ≤ (front source instruction).length)
    (hafter : depthBehind? (((front source instruction).map inserted).take offset) depth =
      some after) :
    Reaches revised new.handlers (carried inserted front original effects)
      (blockStart (inFront front) original source + offset) after := by
  induction offset generalizing after with
  | zero =>
    obtain rfl := Option.some.inj hafter
    exact hreaches
  | succ offset ih =>
    have hlength : offset < ((front source instruction).map inserted).length := by
      rwa [List.length_map]
    rw [depthBehind?_take_succ (List.getElem?_eq_getElem hlength)] at hafter
    obtain ⟨between, hbetween, heffect⟩ := Option.bind_eq_some_iff.mp hafter
    have hflows : Flows revised new.handlers .falls
        (blockStart (inFront front) original source + offset)
        (blockStart (inFront front) original source + (offset + 1)) :=
      (h.flows_front_iff hsource (hneutral.falls source instruction hsource) hoffset
        (by decide)).mpr ⟨rfl, rfl⟩
    refine .completes (ih (Nat.le_of_succ_le hoffset) hbetween) ?_ (by decide) hflows
    rw [carried_front hsource hlength]
    exact heffect

include hdecode

/-- In front of the new code, the stack is as deep as it was in front of the instruction. -/
theorem Expands.reaches_blockStart
    (hreaches : Reaches original old.handlers effects source depth) :
    Reaches revised new.handlers (carried inserted front original effects)
      (blockStart (inFront front) original source) depth := by
  induction hreaches with
  | entry hnonempty => exact .entry (h.blockStart_lt hnonempty)
  | @completes way index next depth after _ heffect hway hflows ih =>
    obtain ⟨instruction, hsource⟩ := hflows.exists_source
    have hneeds := Nat.le_trans (hneutral.enough index instruction hsource)
      (Effect.behind?_eq_some.mp heffect).1
    have hthrough := (hneutral.level index instruction hsource).through hneeds
    rw [← List.take_length (l := (front index instruction).map inserted), List.length_map]
      at hthrough
    refine .completes (h.reaches_front hneutral hsource ih (Nat.le_refl _) hthrough) ?_ hway
      ((h.flows_behind_iff hdecode hneutral.falls hsource hway).mpr ⟨next, rfl, hflows⟩)
    rw [carried_behind hsource]
    exact heffect
  | @fails index next depth _ hflows ih =>
    obtain ⟨instruction, hsource⟩ := hflows.exists_source
    have hlt := h.blockStart_lt (List.getElem?_eq_some_iff.mp hsource).1
    exact .fails ih (h.handles_block hdecode (Nat.le_refl _)
      (lt_blockStart_succ hsource (Nat.zero_le _)) hlt hflows)

/-- Every depth in the expansion is one that the new code makes of a depth that the instruction
behind it was reached with before. -/
theorem Expands.depthInBlock
    (hreaches : Reaches revised new.handlers (carried inserted front original effects) place
      after) :
    DepthInBlock inserted front original old.handlers effects place after := by
  have hstart {target depth : Nat} (hlt : target < original.length)
      (hreached : Reaches original old.handlers effects target depth) :
      DepthInBlock inserted front original old.handlers effects
        (blockStart (inFront front) original target) depth :=
    .intro (List.getElem?_eq_getElem hlt) (Nat.zero_le _) hreached rfl
  induction hreaches with
  | entry hnonempty =>
    have hlt : 0 < original.length := h.lt_length hnonempty
    exact hstart hlt (.entry hlt)
  | completes _ heffect hway hflows ih =>
    obtain @⟨index, offset, depth, _, instruction, hsource, hoffset, hreached, hbehind⟩ := ih
    rcases Nat.lt_or_eq_of_le hoffset with hinside | rfl
    · have hlength : offset < ((front index instruction).map inserted).length := by
        rwa [List.length_map]
      obtain ⟨-, rfl⟩ := (h.flows_front_iff hsource
        (hneutral.falls index instruction hsource) hinside hway).mp hflows
      rw [carried_front hsource hlength] at heffect
      refine .intro hsource hinside hreached ?_
      rw [depthBehind?_take_succ (List.getElem?_eq_getElem hlength), hbehind]
      exact heffect
    · obtain ⟨target, rfl, hflowed⟩ :=
        (h.flows_behind_iff hdecode hneutral.falls hsource hway).mp hflows
      rw [← List.length_map (f := inserted), List.take_length] at hbehind
      obtain rfl := (hneutral.level index instruction hsource).eq_of_behind hbehind
      rw [carried_behind hsource] at heffect
      exact hstart hflowed.lt_length (.completes hreached heffect hway hflowed)
  | fails _ hflows ih =>
    obtain ⟨hsource, hoffset, hreached, -⟩ := ih
    obtain ⟨target, rfl, hflowed⟩ := h.handles_source hdecode (Nat.le_add_right _ _)
      (lt_blockStart_succ hsource hoffset) hsource hflows
    exact hstart hflowed.lt_length (.fails hreached hflowed)

/-- A bound holds in the expansion if and only if it has held before, and also holds with what the
new code puts on top of the depths that let it through. -/
theorem Expands.depthsWithin_iff :
    DepthsWithin limit revised new.handlers (carried inserted front original effects) ↔
      ∀ index instruction depth, original[index]? = some instruction →
        Reaches original old.handlers effects index depth → depth ≤ limit ∧
          (needs index instruction ≤ depth → depth + rise index instruction ≤ limit) := by
  constructor
  · intro hwithin index instruction depth hsource hreaches
    have hstart := h.reaches_blockStart hneutral hdecode hreaches
    refine ⟨hwithin _ _ hstart, fun hneeds ↦ ?_⟩
    obtain ⟨offset, hoffset, hpeak⟩ :=
      (hneutral.level index instruction hsource).exists_peak hneeds
    rw [List.length_map] at hoffset
    exact hwithin _ _ (h.reaches_front hneutral hsource hstart hoffset hpeak)
  · intro hbefore place after hreaches
    obtain @⟨index, offset, depth, _, instruction, hsource, hoffset, hreached, hbehind⟩ :=
      h.depthInBlock hneutral hdecode hreaches
    obtain ⟨hlow, hhigh⟩ := hbefore index instruction depth hsource hreached
    have hlevel := hneutral.level index instruction hsource
    have hlength : offset ≤ ((front index instruction).map inserted).length := by
      rwa [List.length_map]
    rcases Nat.lt_or_ge depth (needs index instruction) with hfew | henough
    · exact Nat.le_trans (hlevel.short depth hfew offset hlength after hbehind) hlow
    · exact Nat.le_trans (hlevel.le_add_rise hlength henough hbehind) (hhigh henough)

end Depths

end Front

/-! ### Bodies without jumps -/

section Straight

variable {instructions : List Instruction} {effects : Nat → Effect} {index depth : Nat}

/-- Without jumps and handlers, an instruction is reached with the depth behind all those in front
of it. -/
theorem Reaches.of_straight
    (hplain : ∀ instruction ∈ instructions, instruction.operand.targets = [])
    (hret : ∀ instruction ∈ instructions, instruction.opcode ≠ .ret)
    (h : Reaches instructions [] effects index depth) :
    index < instructions.length ∧
      depthBehind? ((List.range index).map effects) 0 = some depth := by
  induction h with
  | entry hnonempty => exact ⟨hnonempty, rfl⟩
  | @completes way index next depth after _ heffect _ hflows ih =>
    cases hflows with
    | falls _ _ hnext =>
      refine ⟨hnext, ?_⟩
      rw [List.range_succ, List.map_append, depthBehind?_append, ih.2]
      exact (congrFun (depthBehind?_singleton (effects index)) depth).trans heffect
    | jumps hindex htarget _ =>
      rw [hplain _ (List.mem_of_getElem? hindex)] at htarget
      cases htarget
    | resumes hindex hopcode _ _ _ => exact absurd hopcode (hret _ (List.mem_of_getElem? hindex))
    | handles hrow _ _ _ _ => cases hrow
  | fails _ hflows _ =>
    cases hflows with
    | handles hrow _ _ _ _ => cases hrow

theorem reaches_of_falls {handlers : List ExceptionHandler} (hindex : index < instructions.length)
    (hfalls : ∀ place instruction, place < index → instructions[place]? = some instruction →
      instruction.opcode.fallsThrough = true)
    (hdepth : depthBehind? ((List.range index).map effects) 0 = some depth) :
    Reaches instructions handlers effects index depth := by
  induction index generalizing depth with
  | zero =>
    obtain rfl := Option.some.inj hdepth
    exact .entry hindex
  | succ index ih =>
    rw [List.range_succ, List.map_append, depthBehind?_append] at hdepth
    obtain ⟨between, hbetween, heffect⟩ := Option.bind_eq_some_iff.mp hdepth
    have hlt := Nat.lt_of_succ_lt hindex
    have hfound := List.getElem?_eq_getElem hlt
    exact .completes (ih hlt (fun place instruction hplace ↦ hfalls place instruction (by omega))
      hbetween) (congrFun (depthBehind?_singleton (effects index)) between ▸ heffect) (by decide)
      (.falls hfound (hfalls index _ (Nat.lt_succ_self _) hfound) hindex)

end Straight

end ClassWeaver.Code
