import ClassWeaver.Code.Editor
import ClassWeaver.Proofs.Code.RoundTrip
import ClassWeaver.Proofs.Code.Tables

/-!
What a series of edits makes of a method body.

The last edit of an instruction decides what stands in its place. The revised body is read as the
original one with every edited instruction substituted, and all jumps and tables lead to the first
instruction that stands in for the one they led to (`apply_replay`). The instruction in the place of
an edited one inherits its origin, so that the origins of the edited list are those of the original
one and the relocation of the layout can find them.
-/

set_option autoImplicit false
set_option relaxedAutoImplicit false

namespace ClassWeaver.Code

open ClassFile

/-! ### Series of edits -/

/-- A call that records a change of a body. -/
inductive Edit where
  | replace (index : Nat) (code : List Instruction)
  | insertBefore (index : Nat) (code : List Instruction)

namespace Edit

/-- The number of the instruction that is edited. -/
def index : Edit → Nat
  | replace index _ | insertBefore index _ => index

/-- The instructions that the edit brings in. -/
def code : Edit → List Instruction
  | replace _ code | insertBefore _ code => code

def record : Edit → Editor → Editor
  | replace index code, editor => editor.replace index code
  | insertBefore index code, editor => editor.insertBefore index code

/-- What the edit puts in the place of `old`. -/
def outcome : Edit → (old : Instruction) → List Instruction
  | replace _ code, _ => if code.isEmpty then [.plain .nop] else code
  | insertBefore _ code, old => code ++ [old]

end Edit

/-- Records a series of edits, the first one first. -/
def Editor.replay (editor : Editor) (history : List Edit) : Editor :=
  history.foldl (fun editor edit ↦ edit.record editor) editor

/-- What stands in the place of instruction `index` after a series of edits. -/
def standing (history : List Edit) (index : Nat) (old : Instruction) : List Instruction :=
  match history.reverse.find? fun edit ↦ edit.index == index with
  | some edit => edit.outcome old
  | none => [old]

/-! ### Where instructions start -/

/-- Whether instruction `index` starts at `offset`. -/
def StartsAt (instructions : List Instruction) (index offset : Nat) : Prop :=
  ∃ instruction, instructions[index]? = some instruction ∧ instruction.origin = some offset

theorem StartsAt.mem_origins {instructions : List Instruction} {index offset : Nat}
    (h : StartsAt instructions index offset) : offset ∈ origins instructions := by
  obtain ⟨instruction, hindex, horigin⟩ := h
  exact ClassWeaver.Code.mem_origins.mpr ⟨instruction, List.mem_of_getElem? hindex, horigin⟩

/-- Instructions start in their order. -/
theorem StartsAt.lt {instructions : List Instruction} {first second before behind : Nat}
    (hascending : (origins instructions).Pairwise (· < ·))
    (hfirst : StartsAt instructions first before) (hsecond : StartsAt instructions second behind)
    (h : first < second) : before < behind := by
  obtain ⟨one, hone, honeOrigin⟩ := hfirst
  obtain ⟨other, hother, hotherOrigin⟩ := hsecond
  obtain ⟨hlt, rfl⟩ := List.getElem?_eq_some_iff.mp hone
  obtain ⟨hltOther, rfl⟩ := List.getElem?_eq_some_iff.mp hother
  have hpairwise := List.pairwise_iff_getElem.mp (List.pairwise_filterMap.mp hascending)
  exact hpairwise _ _ hlt hltOther h _ honeOrigin _ hotherOrigin

theorem StartsAt.le {instructions : List Instruction} {first second before behind : Nat}
    (hascending : (origins instructions).Pairwise (· < ·))
    (hfirst : StartsAt instructions first before) (hsecond : StartsAt instructions second behind)
    (h : first ≤ second) : before ≤ behind := by
  rcases Nat.eq_or_lt_of_le h with rfl | hlt
  · obtain ⟨one, hone, honeOrigin⟩ := hfirst
    obtain ⟨other, hother, hotherOrigin⟩ := hsecond
    obtain rfl := Option.some.inj (hone.symm.trans hother)
    exact Nat.le_of_eq (Option.some.inj (honeOrigin.symm.trans hotherOrigin))
  · exact Nat.le_of_lt (hfirst.lt hascending hsecond hlt)

/-- Ascending origins are those of one instruction each. -/
theorem StartsAt.unique {instructions : List Instruction} {first second offset : Nat}
    (hascending : (origins instructions).Pairwise (· < ·))
    (hfirst : StartsAt instructions first offset) (hsecond : StartsAt instructions second offset) :
    first = second := by
  rcases Nat.lt_trichotomy first second with hless | hsame | hmore
  · exact absurd (hfirst.lt hascending hsecond hless) (Nat.lt_irrefl _)
  · exact hsame
  · exact absurd (hsecond.lt hascending hfirst hmore) (Nat.lt_irrefl _)

/-! ### Revisions -/

/-- The instructions of a body before and after a series of edits, and the lengths of its code. -/
structure Revision where
  history : List Edit
  original : List Instruction
  revised : List Instruction
  oldLength : Nat
  newLength : Nat

namespace Revision

variable (revision : Revision)

/-- For every instruction of the original, what stands in its place. -/
def groups : List (List Instruction) :=
  revision.original.mapIdx (standing revision.history)

/-- The number of the first instruction that stands in for instruction `index`. -/
def firstOf (index : Nat) : Nat :=
  (revision.groups.take index).flatten.length

/-- Where offsets go: that of an instruction to the first one that stands in for it, and the end to
the end. -/
inductive Goes : Nat → Nat → Prop
  | stop : Goes revision.oldLength revision.newLength
  | instruction {index old new : Nat} {before after : Instruction}
      (hbefore : revision.original[index]? = some before) (hold : before.origin = some old)
      (hafter : revision.revised[revision.firstOf index]? = some after)
      (hnew : after.origin = some new) : Goes old new

/-- The same instruction, but for where its jumps lead and for an `ldc` that became an `ldc_w`. -/
structure Same (before after : Instruction) : Prop where
  opcode : after.opcode = before.writtenOpcode
  operand : ∃ destination : Nat → Nat,
    (∀ target ∈ before.operand.targets, revision.Goes target (destination target)) ∧
      after.operand = before.operand.retarget destination

/-- The body is the original one with every edited instruction substituted, and its tables have
moved along. -/
structure Faithful (before after : MethodBody) : Prop where
  unique : ∀ {old new other : Nat}, revision.Goes old new → revision.Goes old other → new = other
  instructions : List.Forall₂ revision.Same revision.groups.flatten revision.revised
  tables : BodyMoved revision.Goes before after
  maxStack : after.maxStack = before.maxStack

/-- Ascending origins leave one place for an offset to go to. -/
theorem Goes.unique {revision : Revision} {old new other : Nat}
    (hascending : (origins revision.original).Pairwise (· < ·))
    (hbound : ∀ origin ∈ origins revision.original, origin < revision.oldLength)
    (hnew : revision.Goes old new) (hother : revision.Goes old other) : new = other := by
  have hinside : ∀ {index : Nat} {instruction : Instruction},
      revision.original[index]? = some instruction → instruction.origin = some old →
        old < revision.oldLength := fun hindex horigin ↦
    hbound old (mem_origins.mpr ⟨_, List.mem_of_getElem? hindex, horigin⟩)
  cases hnew with
  | stop =>
    cases hother with
    | stop => rfl
    | instruction hindex horigin _ _ => exact absurd (hinside hindex horigin) (Nat.lt_irrefl _)
  | @instruction index _ _ before after hindex horigin hafter hnew =>
    cases hother with
    | stop => exact absurd (hinside hindex horigin) (Nat.lt_irrefl _)
    | @instruction second _ _ _ _ hsecond hsecondOrigin hsecondAfter hother =>
      obtain rfl : index = second :=
        StartsAt.unique hascending ⟨_, hindex, horigin⟩ ⟨_, hsecond, hsecondOrigin⟩
      obtain rfl := Option.some.inj (hafter.symm.trans hsecondAfter)
      exact Option.some.inj (hnew.symm.trans hother)

end Revision

/-! ### What was recorded -/

namespace Edit

/-- The record of the edit: the instruction behind an insertion has lost its origin. -/
def stored : Edit → (old : Instruction) → List Instruction
  | replace _ code, _ => if code.isEmpty then [.plain .nop] else code
  | insertBefore _ code, old => code ++ [{ old with origin := none }]

theorem stored_ne_nil (edit : Edit) (old : Instruction) : edit.stored old ≠ [] := by
  cases edit with
  | replace index code => cases code <;> simp [stored]
  | insertBefore index code => simp [stored]

@[simp] theorem instructions_record (edit : Edit) (editor : Editor) :
    (edit.record editor).instructions = editor.instructions := by
  cases edit with
  | replace index code =>
    simp only [record, Editor.replace]
    split <;> rfl
  | insertBefore index code =>
    simp only [record, Editor.insertBefore]
    split <;> rfl

theorem replacements_record (edit : Edit) (editor : Editor) :
    (edit.record editor).replacements =
      match editor.instructions[edit.index]? with
      | some old => editor.replacements.insert edit.index (edit.stored old)
      | none => editor.replacements := by
  cases edit with
  | replace index code =>
    simp only [record, Editor.replace, Edit.index]
    cases editor.instructions[index]? <;> rfl
  | insertBefore index code =>
    simp only [record, Editor.insertBefore, Edit.index]
    cases editor.instructions[index]? <;> rfl

theorem getElem?_record (edit : Edit) {editor : Editor} {index : Nat} {old : Instruction}
    (hold : editor.instructions[index]? = some old) :
    (edit.record editor).replacements[index]? =
      if edit.index = index then some (edit.stored old) else editor.replacements[index]? := by
  rw [replacements_record]
  by_cases hindex : edit.index = index
  · subst hindex
    simp [hold]
  · rw [if_neg hindex]
    split
    · rw [Std.TreeMap.getElem?_insert, if_neg (by simpa using hindex)]
    · rfl

end Edit

namespace Editor

variable {editor : Editor} {index : Nat} {old : Instruction}

@[simp] theorem instructions_replay (editor : Editor) (history : List Edit) :
    (editor.replay history).instructions = editor.instructions := by
  induction history generalizing editor with
  | nil => rfl
  | cons edit rest ih => exact (ih (edit.record editor)).trans (edit.instructions_record editor)

/-- The last edit of an instruction is the one on record. -/
theorem getElem?_replay (history : List Edit) (hold : editor.instructions[index]? = some old) :
    (editor.replay history).replacements[index]? =
      ((history.reverse.find? fun edit ↦ edit.index == index).map (·.stored old)).or
        editor.replacements[index]? := by
  induction history generalizing editor with
  | nil => rfl
  | cons edit rest ih =>
    have hrest := ih (show (edit.record editor).instructions[index]? = some old by
      rw [edit.instructions_record, hold])
    rw [edit.getElem?_record hold] at hrest
    rw [List.reverse_cons, List.find?_append]
    refine hrest.trans ?_
    cases rest.reverse.find? fun edit ↦ edit.index == index with
    | some last => rfl
    | none =>
      by_cases hindex : edit.index = index <;> simp [hindex]

theorem inherit_eq_cons (origin : Option Nat) {code : List Instruction} (h : code ≠ []) :
    ∃ first rest, inherit origin code = first :: rest ∧ first.origin = origin ∧
      origins rest = [] := by
  cases code with
  | nil => exact absurd rfl h
  | cons first rest =>
    refine ⟨_, _, rfl, rfl, ?_⟩
    rw [origins, List.filterMap_map]
    exact List.filterMap_eq_nil_iff.mpr fun _ _ ↦ rfl

/-- The first of the instructions that stand in for another has its origin, and no other has any. -/
theorem standIn_eq_cons (history : List Edit) (hblank : editor.replacements = ∅)
    (hold : editor.instructions[index]? = some old) :
    ∃ first rest, (editor.replay history).standIn index old = first :: rest ∧
      first.origin = old.origin ∧ origins rest = [] := by
  rw [standIn, getElem?_replay history hold, hblank, Std.TreeMap.getElem?_emptyc, Option.or_none]
  cases history.reverse.find? fun edit ↦ edit.index == index with
  | some edit => exact inherit_eq_cons old.origin (edit.stored_ne_nil old)
  | none => exact ⟨old, [], rfl, rfl, rfl⟩

end Editor

/-! ### The edited instructions -/

/-- What an instruction is, wherever it comes from. -/
def Instruction.content (instruction : Instruction) : Opcode × Operand :=
  (instruction.opcode, instruction.operand)

theorem content_inherit (origin : Option Nat) (code : List Instruction) :
    (Editor.inherit origin code).map Instruction.content = code.map Instruction.content := by
  cases code with
  | nil => rfl
  | cons first rest => simp [Editor.inherit, Instruction.content, Function.comp_def]

theorem Edit.content_stored (edit : Edit) (old : Instruction) :
    (edit.stored old).map Instruction.content = (edit.outcome old).map Instruction.content := by
  cases edit with
  | replace index code => rfl
  | insertBefore index code => simp [stored, outcome, Instruction.content]

theorem standing_of_forall_ne {history : List Edit} {index : Nat} (old : Instruction)
    (h : ∀ edit ∈ history, edit.index ≠ index) : standing history index old = [old] := by
  have hnone : (history.reverse.find? fun edit ↦ edit.index == index) = none :=
    List.find?_eq_none.mpr fun edit hedit ↦ by simpa using h edit (List.mem_reverse.mp hedit)
  rw [standing, hnone]

/-- When all edits of an instruction come to the same, it does not matter which is the last. -/
theorem standing_of_forall {history : List Edit} {index : Nat} {old : Instruction}
    {code : List Instruction} (hmem : ∃ edit ∈ history, edit.index = index)
    (h : ∀ edit ∈ history, edit.index = index → edit.outcome old = code) :
    standing history index old = code := by
  rw [standing]
  cases hfound : history.reverse.find? fun edit ↦ edit.index == index with
  | none =>
    obtain ⟨edit, hedit, hindex⟩ := hmem
    have hother := List.find?_eq_none.mp hfound edit (List.mem_reverse.mpr hedit)
    exact absurd (beq_iff_eq.mpr hindex) hother
  | some edit =>
    have hedit := List.mem_reverse.mp (List.mem_of_find?_eq_some hfound)
    exact h edit hedit (by simpa using List.find?_some hfound)

theorem mem_standing {history : List Edit} {index : Nat} {old instruction : Instruction}
    (h : instruction ∈ standing history index old) :
    instruction = old ∨ instruction = .plain .nop ∨ ∃ edit ∈ history, instruction ∈ edit.code := by
  unfold standing at h
  split at h
  · rename_i edit hfound
    have hedit : edit ∈ history := List.mem_reverse.mp (List.mem_of_find?_eq_some hfound)
    cases edit with
    | replace index code =>
      simp only [Edit.outcome] at h
      split at h
      · exact Or.inr (Or.inl (List.mem_singleton.mp h))
      · exact Or.inr (Or.inr ⟨_, hedit, h⟩)
    | insertBefore index code =>
      rcases List.mem_append.mp h with hcode | hold
      · exact Or.inr (Or.inr ⟨_, hedit, hcode⟩)
      · exact Or.inl (List.mem_singleton.mp hold)
  · exact Or.inl (List.mem_singleton.mp h)

section Replay

variable {editor : Editor} {history : List Edit} {original : List Instruction}

theorem content_standIn {index : Nat} {old : Instruction} (hblank : editor.replacements = ∅)
    (hold : editor.instructions[index]? = some old) :
    ((editor.replay history).standIn index old).map Instruction.content =
      (standing history index old).map Instruction.content := by
  rw [Editor.standIn, Editor.getElem?_replay history hold, hblank, Std.TreeMap.getElem?_emptyc,
    Option.or_none, standing]
  cases history.reverse.find? fun edit ↦ edit.index == index with
  | some edit => exact (content_inherit _ _).trans (edit.content_stored old)
  | none => rfl

/-- The edited instructions, grouped by the instruction that they stand in for. -/
def Editor.editedGroups (editor : Editor) : List (List Instruction) :=
  editor.instructions.toList.mapIdx editor.standIn

theorem edited_eq_flatten (editor : Editor) : editor.edited = editor.editedGroups.flatten := by
  rw [Editor.edited, Editor.editedGroups, List.mapIdx_eq_zipIdx_map, List.flatMap_def]

theorem content_editedGroups (hblank : editor.replacements = ∅) :
    (editor.replay history).editedGroups.map (List.map Instruction.content) =
      (editor.instructions.toList.mapIdx (standing history)).map
        (List.map Instruction.content) := by
  apply List.ext_getElem?
  intro index
  rw [List.getElem?_map, List.getElem?_map, Editor.editedGroups, List.getElem?_mapIdx,
    List.getElem?_mapIdx, Editor.instructions_replay, Array.getElem?_toList]
  cases hold : editor.instructions[index]? with
  | none => rfl
  | some old => exact congrArg some (content_standIn hblank hold)

theorem origins_edited (history : List Edit) (hblank : editor.replacements = ∅) :
    origins (editor.replay history).edited = origins editor.instructions.toList := by
  have hgroup : ∀ place ∈ editor.instructions.toList.zipIdx,
      origins ((editor.replay history).standIn place.2 place.1) = place.1.origin.toList := by
    rintro ⟨old, index⟩ hmem
    have hold : editor.instructions[index]? = some old := by
      rw [← Array.getElem?_toList]
      exact List.mem_zipIdx_iff_getElem?.mp hmem
    obtain ⟨first, rest, hgroup, horigin, hrest⟩ := Editor.standIn_eq_cons history hblank hold
    rw [hgroup, ← horigin]
    cases hfirst : first.origin with
    | none => rwa [origins, List.filterMap_cons_none hfirst]
    | some origin =>
      rw [origins, List.filterMap_cons_some hfirst]
      exact congrArg (origin :: ·) hrest
  calc origins (editor.replay history).edited
      = editor.instructions.toList.zipIdx.flatMap fun place ↦
          origins ((editor.replay history).standIn place.2 place.1) := by
        rw [Editor.edited, Editor.instructions_replay, origins, List.filterMap_flatMap]
        rfl
    _ = editor.instructions.toList.zipIdx.flatMap fun place ↦ place.1.origin.toList :=
        List.flatMap_congr hgroup
    _ = (editor.instructions.toList.zipIdx.map Prod.fst).flatMap fun old ↦ old.origin.toList := by
        rw [List.flatMap_map]
    _ = origins editor.instructions.toList := by
        rw [List.zipIdx_map_fst, origins, List.filterMap_eq_flatMap_toList]

theorem flatten_eq_append {α : Type} {groups : List (List α)} {index : Nat} {group : List α}
    (h : groups[index]? = some group) :
    groups.flatten =
      (groups.take index).flatten ++ (group ++ (groups.drop (index + 1)).flatten) := by
  obtain ⟨hindex, rfl⟩ := List.getElem?_eq_some_iff.mp h
  conv_lhs => rw [← List.take_append_drop index groups, ← List.getElem_cons_drop hindex]
  rw [List.flatten_append, List.flatten_cons]

/-- The first of a group stands behind all the groups in front of it. -/
theorem getElem?_flatten {groups : List (List Instruction)} {index : Nat} {first : Instruction}
    {rest : List Instruction} (h : groups[index]? = some (first :: rest)) :
    groups.flatten[(groups.take index).flatten.length]? = some first := by
  rw [flatten_eq_append h, List.cons_append, List.getElem?_append_right (Nat.le_refl _),
    Nat.sub_self, List.getElem?_cons_zero]

/-! ### The revised body -/

/-- The revision that assembling the edited instructions amounts to. -/
def Editor.revision (editor : Editor) (history : List Edit) (oldLength : Nat) : Revision where
  history
  original := editor.instructions.toList
  revised :=
    let relocation := Relocation.ofLayout oldLength (editor.replay history).edited
    (layout 0 (editor.replay history).edited).map fun place ↦
      place.2.placed relocation.destination place.1
  oldLength
  newLength := layoutEnd 0 (editor.replay history).edited

theorem content_edited (history : List Edit) (hblank : editor.replacements = ∅)
    (oldLength : Nat) :
    (editor.replay history).edited.map Instruction.content =
      (editor.revision history oldLength).groups.flatten.map Instruction.content := by
  rw [edited_eq_flatten, List.map_flatten, List.map_flatten, content_editedGroups hblank]
  rfl

/-- The first stand-in is at the same number in either list of groups. -/
theorem firstOf_revision (hblank : editor.replacements = ∅) (oldLength index : Nat) :
    (editor.revision history oldLength).firstOf index =
      ((editor.replay history).editedGroups.take index).flatten.length := by
  have hcontent : (((editor.replay history).editedGroups.take index).flatten).map
      Instruction.content =
        (((editor.revision history oldLength).groups.take index).flatten).map
          Instruction.content := by
    rw [List.map_flatten, List.map_flatten, List.map_take, List.map_take,
      content_editedGroups hblank]
    rfl
  have hlength := congrArg List.length hcontent
  rw [List.length_map, List.length_map] at hlength
  exact hlength.symm

/-- The relocation leads where the revision says: to the first stand-in, which has inherited the
origin. -/
theorem goes_of_map {oldLength old new : Nat} (hblank : editor.replacements = ∅)
    (hascending : (origins editor.instructions.toList).Pairwise (· < ·))
    (h : (Relocation.ofLayout oldLength (editor.replay history).edited).map old = .ok new) :
    (editor.revision history oldLength).Goes old new := by
  rcases Relocation.map_ofLayout_eq_ok h with ⟨rfl, rfl⟩ | ⟨place, hplace, rfl, horigin⟩
  · exact .stop
  · have hsame := origins_edited history hblank
    have hmem : old ∈ origins editor.instructions.toList := by
      rw [← hsame]
      exact mem_origins.mpr ⟨place.2, mem_of_mem_layout hplace, horigin⟩
    obtain ⟨before, hbefore, hold⟩ := mem_origins.mp hmem
    obtain ⟨index, hindex⟩ := List.mem_iff_getElem?.mp hbefore
    have hinstruction : editor.instructions[index]? = some before := by
      rwa [← Array.getElem?_toList]
    obtain ⟨first, rest, hgroup, hinherited, -⟩ :=
      Editor.standIn_eq_cons history hblank hinstruction
    have hhead : (editor.replay history).edited[
        (editor.revision history oldLength).firstOf index]? = some first := by
      rw [edited_eq_flatten, firstOf_revision hblank]
      have hfirst : (editor.replay history).editedGroups[index]? = some (first :: rest) := by
        rw [Editor.editedGroups, List.getElem?_mapIdx, Editor.instructions_replay, hindex, ← hgroup]
        rfl
      exact getElem?_flatten hfirst
    have hlaid := getElem?_layout 0 (editor.replay history).edited
      ((editor.revision history oldLength).firstOf index)
    rw [hhead] at hlaid
    -- Origins ascend, so the place that the relocation found is that of the first stand-in.
    have hfound := eq_of_mem_layout (hsame ▸ hascending) hplace (List.mem_of_getElem? hlaid) horigin
      (hinherited.trans hold)
    have hrevised : (editor.revision history oldLength).revised[
        (editor.revision history oldLength).firstOf index]? = some (place.2.placed
          (Relocation.ofLayout oldLength (editor.replay history).edited).destination place.1) := by
      rw [hfound]
      exact (List.getElem?_map ..).trans (congrArg (Option.map _) hlaid)
    exact .instruction hindex hold hrevised rfl

/-- Whatever stands in the edited list was in the original one, or was brought in by an edit. -/
theorem content_of_mem_edited (hblank : editor.replacements = ∅) {instruction : Instruction}
    (h : instruction ∈ (editor.replay history).edited) :
    ∃ source, source.content = instruction.content ∧
      (source ∈ editor.instructions.toList ∨ source = .plain .nop ∨
        ∃ edit ∈ history, source ∈ edit.code) := by
  have hmem := List.mem_map_of_mem (f := Instruction.content) h
  rw [content_edited history hblank 0] at hmem
  obtain ⟨source, hsource, hcontent⟩ := List.mem_map.mp hmem
  obtain ⟨group, hgroup, hsource⟩ := List.mem_flatten.mp hsource
  obtain ⟨index, hindex, rfl⟩ := List.mem_mapIdx.mp hgroup
  refine ⟨source, hcontent, ?_⟩
  rcases mem_standing hsource with rfl | hnop | hedit
  · exact Or.inl (List.getElem_mem hindex)
  · exact Or.inr (Or.inl hnop)
  · exact Or.inr (Or.inr hedit)

theorem wellFormed_edited (hblank : editor.replacements = ∅)
    (horiginal : ∀ instruction ∈ editor.instructions.toList, instruction.WellFormed)
    (hwell : ∀ edit ∈ history, ∀ instruction ∈ edit.code, instruction.WellFormed) :
    ∀ instruction ∈ (editor.replay history).edited, instruction.WellFormed := by
  intro instruction hmem
  obtain ⟨source, hcontent, hsource⟩ := content_of_mem_edited hblank hmem
  obtain ⟨hopcode, hoperand⟩ := Prod.mk.inj hcontent
  have hsourceWell : source.WellFormed := by
    rcases hsource with hold | rfl | ⟨edit, hedit, hnew⟩
    · exact horiginal source hold
    · exact ⟨.plain, rfl, .plain⟩
    · exact hwell edit hedit source hnew
  rwa [Instruction.WellFormed, hopcode, hoperand] at hsourceWell

theorem targets_edited (hblank : editor.replacements = ∅) {starts : List Nat}
    (horiginal : ∀ instruction ∈ editor.instructions.toList,
      ∀ target ∈ instruction.operand.targets, target ∈ starts)
    (htargets : ∀ edit ∈ history, ∀ instruction ∈ edit.code,
      ∀ target ∈ instruction.operand.targets, target ∈ starts) :
    ∀ instruction ∈ (editor.replay history).edited,
      ∀ target ∈ instruction.operand.targets, target ∈ starts := by
  intro instruction hmem
  obtain ⟨source, hcontent, hsource⟩ := content_of_mem_edited hblank hmem
  rw [← (Prod.mk.inj hcontent).2]
  rcases hsource with hold | rfl | ⟨edit, hedit, hnew⟩
  · exact horiginal source hold
  · exact fun target htarget ↦ absurd htarget List.not_mem_nil
  · exact htargets edit hedit source hnew

/-- The edited instructions, each in its place, are those of the groups. -/
theorem forall₂_same {oldLength : Nat} (hblank : editor.replacements = ∅)
    (hascending : (origins editor.instructions.toList).Pairwise (· < ·))
    (htargets : ∀ instruction ∈ (editor.replay history).edited,
      ∀ target ∈ instruction.operand.targets,
        (Relocation.ofLayout oldLength (editor.replay history).edited).map target =
          .ok ((Relocation.ofLayout oldLength (editor.replay history).edited).destination target)) :
    List.Forall₂ (editor.revision history oldLength).Same
      (editor.revision history oldLength).groups.flatten
      (editor.revision history oldLength).revised := by
  have hcontent : List.Forall₂ (fun (place : Nat × Instruction) (before : Instruction) ↦
      place.2.content = before.content) (layout 0 (editor.replay history).edited)
        (editor.revision history oldLength).groups.flatten := by
    have hequal := content_edited history hblank oldLength
    rw [← map_snd_layout 0 (editor.replay history).edited, List.map_map] at hequal
    have hmapped := List.forall₂_eq_eq_eq.symm ▸ hequal
    rwa [List.forall₂_map_left_iff, List.forall₂_map_right_iff] at hmapped
  have hplaces := (List.forall₂_and_left _ _).mpr
    ⟨fun place hplace ↦ htargets place.2 (mem_of_mem_layout hplace), hcontent⟩
  refine List.forall₂_map_right_iff.mpr (hplaces.flip.imp fun before place hplace ↦ ?_)
  obtain ⟨htargets, hcontent⟩ := hplace
  obtain ⟨hopcode, hoperand⟩ := Prod.mk.inj hcontent
  refine ⟨?_, _, fun target htarget ↦ ?_, congrArg (Operand.retarget _) hoperand⟩
  · simp only [Instruction.placed, Instruction.writtenOpcode, hopcode, hoperand]
  · exact goes_of_map hblank hascending (htargets target (hoperand ▸ htarget))

theorem follows_revision {oldLength : Nat} (hblank : editor.replacements = ∅)
    (hascending : (origins editor.instructions.toList).Pairwise (· < ·))
    (hbound : ∀ origin ∈ origins editor.instructions.toList, origin < oldLength)
    (hsize : layoutEnd 0 (editor.replay history).edited ≤ maxCodeLength) :
    (Relocation.ofLayout oldLength (editor.replay history).edited).Follows
      (editor.revision history oldLength).Goes := by
  have hsame := origins_edited history hblank
  exact Relocation.follows_ofLayout (hsame ▸ hascending) (hsame ▸ hbound) hsize
    (goes_of_map hblank hascending)

end Replay

theorem Editor.ofBody_eq_ok {pool : ConstantPool} {body : MethodBody} {editor : Editor}
    (h : Editor.ofBody pool body = .ok editor) :
    decode body.code = .ok editor.instructions.toList ∧ editor.replacements = ∅ ∧
      editor.extraStack = 0 := by
  obtain ⟨instructions, hdecode, h⟩ := except_bind_eq_ok.mp h
  cases h
  exact ⟨hdecode, rfl, rfl⟩

/-- Every instruction that was read has an origin; the origins ascend, and are offsets of the
code. -/
theorem origins_of_decode {code : Bytes} {instructions : List Instruction}
    (h : decode code = .ok instructions) :
    (origins instructions).Pairwise (· < ·) ∧
      (∀ origin ∈ origins instructions, origin < code.length) ∧
        ∀ instruction ∈ instructions, ∃ offset, instruction.origin = some offset := by
  obtain ⟨-, htiled⟩ := readFrom_eq_ok (Nat.le_refl _) (decode_eq_ok_iff.mp h).1
  exact ⟨htiled.pairwise_origins, fun origin hmem ↦ by simpa using (htiled.bounds origin hmem).2,
    htiled.exists_origin⟩

theorem ascending_ofBody {pool : ConstantPool} {body : MethodBody} {editor : Editor}
    (h : Editor.ofBody pool body = .ok editor) :
    (origins editor.instructions.toList).Pairwise (· < ·) ∧
      ∀ origin ∈ origins editor.instructions.toList, origin < body.code.length := by
  obtain ⟨hascending, hbound, -⟩ := origins_of_decode (Editor.ofBody_eq_ok h).1
  exact ⟨hascending, hbound⟩

/-- Edits do not change which offsets instructions start at. -/
theorem ascending_edited {pool : ConstantPool} {body : MethodBody} {editor : Editor}
    (h : Editor.ofBody pool body = .ok editor) (history : List Edit) :
    (origins (editor.replay history).edited).Pairwise (· < ·) ∧
      ∀ origin ∈ origins (editor.replay history).edited, origin < body.code.length := by
  obtain ⟨-, hblank, -⟩ := Editor.ofBody_eq_ok h
  rw [origins_edited history hblank]
  exact ascending_ofBody h

/-- What is assembled from ascending origins is not too large, and its relocation keeps their
order. -/
theorem follows_assemble {instructions : List Instruction} {oldLength : Nat} {code : Bytes}
    {relocation : Relocation} (hascending : (origins instructions).Pairwise (· < ·))
    (hbound : ∀ origin ∈ origins instructions, origin < oldLength)
    (hassemble : assemble instructions oldLength = .ok (code, relocation)) :
    relocation.Follows fun _ new ↦ new ≤ maxCodeLength := by
  have hsize := newLength_assemble_le hassemble
  obtain ⟨rfl, -, -⟩ := assemble_eq_ok hassemble
  exact Relocation.follows_ofLayout hascending hbound hsize fun hmap ↦
    Nat.le_trans (Relocation.map_ofLayout_le hmap) hsize

theorem Editor.extraStack_replay (editor : Editor) (history : List Edit) :
    (editor.replay history).extraStack = editor.extraStack := by
  induction history generalizing editor with
  | nil => rfl
  | cons edit rest ih =>
    refine (ih (edit.record editor)).trans ?_
    cases edit with
    | replace index code =>
      simp only [Edit.record, Editor.replace]
      split <;> rfl
    | insertBefore index code =>
      simp only [Edit.record, Editor.insertBefore]
      split <;> rfl

theorem addStack_zero (size : UInt16) : addStack size 0 = size := by
  rw [addStack, if_pos (by simpa using size.toNat_lt), UInt16.add_zero]

/-- Edits that are applied add to the room what was reserved, as far as there is any. -/
theorem maxStack_apply {editor : Editor} {body : MethodBody} (hmodified : editor.isModified = true)
    (happlied : (editor.apply body).failure = none) :
    (editor.apply body).value.maxStack = addStack body.maxStack editor.extraStack := by
  rw [Editor.apply, if_pos hmodified] at happlied ⊢
  obtain ⟨-, -, -, -, hstack, -⟩ := relocateBody_moved happlied
  exact hstack

/-- Edits of a body without tables are applied if nothing jumps and the code gets no longer than
code may be. -/
theorem apply_failure_of_plain {editor : Editor} {body : MethodBody}
    (hhandlers : body.handlers = []) (hattributes : body.attributes = [])
    (hmodified : editor.isModified = true)
    (hplain : ∀ instruction ∈ editor.edited, instruction.operand.targets = [])
    (hlength : layoutEnd 0 editor.edited ≤ maxCodeLength) : (editor.apply body).failure = none := by
  obtain ⟨⟨code, relocation⟩, hassemble⟩ := exists_assemble hplain hlength body.code.length
  rw [Editor.apply, if_pos hmodified, relocateBody, hassemble]
  dsimp only
  rw [hhandlers, hattributes]
  rfl

section Applied

variable {pool : ConstantPool} {body : MethodBody} {editor : Editor} {original : List Instruction}
  {history : List Edit}

/-- Once edits are applied without a failure, the body is read as the revision says, if all that
stands in it afterwards jumps to instructions only. -/
theorem decode_apply_edited (hdecode : decode body.code = .ok original)
    (heditor : Editor.ofBody pool body = .ok editor)
    (hwell : ∀ edit ∈ history, ∀ instruction ∈ edit.code, instruction.WellFormed)
    (htargets : ∀ instruction ∈ (editor.replay history).edited,
      ∀ target ∈ instruction.operand.targets, target ∈ origins original)
    (hmodified : (editor.replay history).isModified = true)
    (happlied : ((editor.replay history).apply body).failure = none) :
    let revision := editor.revision history body.code.length
    let revisedBody := ((editor.replay history).apply body).value
    decode revisedBody.code = .ok revision.revised ∧
      revisedBody.code.length = revision.newLength ∧
      List.Forall₂ revision.Same revision.groups.flatten revision.revised ∧
      BodyMoved revision.Goes body revisedBody := by
  obtain ⟨hinstructions, hblank, -⟩ := Editor.ofBody_eq_ok heditor
  obtain rfl : editor.instructions.toList = original :=
    Except.ok.inj (hinstructions.symm.trans hdecode)
  obtain ⟨horiginalWell, -⟩ := readFrom_eq_ok (Nat.le_refl _) (decode_eq_ok_iff.mp hdecode).1
  obtain ⟨hascending, hbound⟩ := ascending_ofBody heditor
  have hsame := origins_edited history hblank
  have hwellEdited := wellFormed_edited hblank horiginalWell hwell
  rw [Editor.apply, if_pos hmodified] at happlied ⊢
  obtain ⟨code, relocation, hassemble, hcode, -, htables⟩ := relocateBody_moved happlied
  have hrevised := decode_of_assemble hwellEdited (hsame ▸ hbound) (hsame ▸ htargets) hassemble
  have hlength := (read_assemble hwellEdited hassemble).2
  have hsize := newLength_assemble_le hassemble
  have hmap := fun instruction hmem target htarget ↦ (map_target (hsame ▸ hbound)
    (hsame ▸ htargets instruction hmem target htarget) hassemble).1
  obtain ⟨rfl, -, -⟩ := assemble_eq_ok hassemble
  exact ⟨hcode ▸ hrevised, hcode ▸ hlength, forall₂_same hblank hascending hmap,
    htables _ (follows_revision hblank hascending hbound hsize)⟩

/-- What was applied can only be read if it jumps to instructions only. -/
theorem targets_of_decode_apply (hdecode : decode body.code = .ok original)
    (heditor : Editor.ofBody pool body = .ok editor)
    (hwell : ∀ edit ∈ history, ∀ instruction ∈ edit.code, instruction.WellFormed)
    (hmodified : (editor.replay history).isModified = true)
    (happlied : ((editor.replay history).apply body).failure = none) {revised : List Instruction}
    (hrevised : decode ((editor.replay history).apply body).value.code = .ok revised) :
    ∀ instruction ∈ (editor.replay history).edited, ∀ target ∈ instruction.operand.targets,
      target ∈ origins original := by
  obtain ⟨hinstructions, hblank, -⟩ := Editor.ofBody_eq_ok heditor
  obtain rfl : editor.instructions.toList = original :=
    Except.ok.inj (hinstructions.symm.trans hdecode)
  obtain ⟨horiginalWell, -⟩ := readFrom_eq_ok (Nat.le_refl _) (decode_eq_ok_iff.mp hdecode).1
  rw [Editor.apply, if_pos hmodified] at happlied hrevised
  obtain ⟨code, relocation, hassemble, hcode, -, -⟩ := relocateBody_moved happlied
  rw [hcode] at hrevised
  rw [← origins_edited history hblank]
  exact targets_of_decode (wellFormed_edited hblank horiginalWell hwell) hassemble hrevised

/-- The same for edits that bring in jumps to instructions only. -/
theorem decode_apply_replay (hdecode : decode body.code = .ok original)
    (heditor : Editor.ofBody pool body = .ok editor)
    (hwell : ∀ edit ∈ history, ∀ instruction ∈ edit.code, instruction.WellFormed)
    (htargets : ∀ edit ∈ history, ∀ instruction ∈ edit.code,
      ∀ target ∈ instruction.operand.targets, target ∈ origins original)
    (hmodified : (editor.replay history).isModified = true)
    (happlied : ((editor.replay history).apply body).failure = none) :
    let revision := editor.revision history body.code.length
    let revisedBody := ((editor.replay history).apply body).value
    decode revisedBody.code = .ok revision.revised ∧
      revisedBody.code.length = revision.newLength ∧
      List.Forall₂ revision.Same revision.groups.flatten revision.revised ∧
      BodyMoved revision.Goes body revisedBody := by
  obtain ⟨hinstructions, hblank, -⟩ := Editor.ofBody_eq_ok heditor
  obtain rfl : editor.instructions.toList = original :=
    Except.ok.inj (hinstructions.symm.trans hdecode)
  have hedited := targets_edited hblank (decode_eq_ok_iff.mp hdecode).2 htargets
  exact decode_apply_edited hdecode heditor hwell hedited hmodified happlied

end Applied

/-- Once edits are applied without a failure, the body is read as the original one with every edited
instruction substituted by what the last edit of it says, and its jumps and tables lead to the first
instructions that stand in for those they led to. -/
theorem apply_replay {pool : ConstantPool} {body : MethodBody} {editor : Editor}
    {original : List Instruction} {history : List Edit}
    (hdecode : decode body.code = .ok original) (heditor : Editor.ofBody pool body = .ok editor)
    (hwell : ∀ edit ∈ history, ∀ instruction ∈ edit.code, instruction.WellFormed)
    (htargets : ∀ edit ∈ history, ∀ instruction ∈ edit.code,
      ∀ target ∈ instruction.operand.targets, target ∈ origins original)
    (hmodified : (editor.replay history).isModified = true)
    (happlied : ((editor.replay history).apply body).failure = none) :
    ∃ revised, decode ((editor.replay history).apply body).value.code = .ok revised ∧
      (Revision.mk history original revised body.code.length
        ((editor.replay history).apply body).value.code.length).Faithful
          body ((editor.replay history).apply body).value := by
  obtain ⟨hrevised, hlength, hsame, htables⟩ :=
    decode_apply_replay hdecode heditor hwell htargets hmodified happlied
  obtain ⟨hinstructions, -, hextra⟩ := Editor.ofBody_eq_ok heditor
  obtain rfl : editor.instructions.toList = original :=
    Except.ok.inj (hinstructions.symm.trans hdecode)
  obtain ⟨hascending, hbound⟩ := ascending_ofBody heditor
  refine ⟨_, hrevised, ?_⟩
  rw [hlength]
  refine ⟨Revision.Goes.unique hascending hbound, hsame, htables, ?_⟩
  rw [Editor.apply, if_pos hmodified] at happlied ⊢
  obtain ⟨code, relocation, -, -, hstack, -⟩ := relocateBody_moved happlied
  rw [hstack, Editor.extraStack_replay, hextra, addStack_zero]

/-- A jump to the end of a guarded range, where there is also a frame. -/
def guardedJump : MethodBody :=
  ⟨1, 1, [0xa7, 0, 3, 0xb1], [⟨0, 3, 3, 0⟩], [⟨7, .stackMap [.same 3]⟩]⟩

/-- What is put in front of the end of the range is jumped to. -/
theorem apply_replay_guardedJump :
    ∃ editor revised, Editor.ofBody .empty guardedJump = .ok editor ∧
      decode ((editor.replay [.insertBefore 1 [.plain .nop]]).apply guardedJump).value.code =
        .ok revised ∧
      (Revision.mk [.insertBefore 1 [.plain .nop]]
        [⟨0xa7, .branch 3, some 0⟩, ⟨0xb1, .none, some 3⟩] revised guardedJump.code.length
        ((editor.replay [.insertBefore 1 [.plain .nop]]).apply
          guardedJump).value.code.length).Faithful guardedJump
            ((editor.replay [.insertBefore 1 [.plain .nop]]).apply guardedJump).value := by
  have hwell : ∀ edit ∈ [Edit.insertBefore 1 [.plain .nop]], ∀ instruction ∈ edit.code,
      instruction.WellFormed := by
    simpa [Edit.code] using ⟨.plain, rfl, .plain⟩
  obtain ⟨revised, hfaithful⟩ := apply_replay (show decode guardedJump.code = .ok _ from rfl)
    (show Editor.ofBody .empty guardedJump = .ok _ from rfl) hwell
    (by simp [Edit.code, Instruction.plain, Operand.targets]) rfl rfl
  exact ⟨_, revised, rfl, hfaithful⟩

end ClassWeaver.Code
