import ClassWeaver.Proofs.Code.Editing

/-!
Edits that put one instruction in the place of another.

When all edits of a body are of this kind, instructions keep their numbers: the one that stands at
a number is what the last edit of that number brings in, or else what stood there before. Jumps
and handlers lead to the numbers that they led to.
-/

set_option autoImplicit false
set_option relaxedAutoImplicit false

namespace ClassWeaver.Code

variable {history : List Edit} {index : Nat} {old : Instruction}

def OneForOne (history : List Edit) : Prop :=
  ∀ edit ∈ history, ∃ index instruction, edit = .replace index [instruction]

/-- What stands in the place of instruction `index`. -/
def substitute (history : List Edit) (index : Nat) (old : Instruction) : Instruction :=
  (standing history index old).headD old

/-- What the last edit of the instruction says, or else the instruction itself. -/
theorem OneForOne.standing_cases (h : OneForOne history) (index : Nat) (old : Instruction) :
    standing history index old = [substitute history index old] ∧
      (.replace index [substitute history index old] ∈ history ∨
        (∀ edit ∈ history, edit.index ≠ index) ∧ substitute history index old = old) := by
  rw [substitute, standing]
  cases hfound : history.reverse.find? fun edit ↦ edit.index == index with
  | none =>
    refine ⟨rfl, .inr ⟨fun edit hedit hindex ↦ ?_, rfl⟩⟩
    exact List.find?_eq_none.mp hfound edit (List.mem_reverse.mpr hedit) (by simp [hindex])
  | some edit =>
    have hedit := List.mem_reverse.mp (List.mem_of_find?_eq_some hfound)
    obtain ⟨place, instruction, rfl⟩ := h edit hedit
    obtain rfl : place = index := by simpa [Edit.index] using List.find?_some hfound
    exact ⟨rfl, .inl hedit⟩

namespace Revision

variable {revision : Revision}

theorem groups_eq_map (h : OneForOne revision.history) :
    revision.groups = (revision.original.mapIdx (substitute revision.history)).map ([·]) := by
  apply List.ext_getElem?
  intro index
  rw [groups, List.getElem?_mapIdx, List.getElem?_map, List.getElem?_mapIdx, Option.map_map]
  congr 1
  funext old
  exact (h.standing_cases index old).1

theorem flatten_groups (h : OneForOne revision.history) :
    revision.groups.flatten = revision.original.mapIdx (substitute revision.history) := by
  rw [groups_eq_map h, ← List.flatMap_def, List.flatMap_singleton']

theorem firstOf_eq (h : OneForOne revision.history) {index : Nat}
    (hindex : index ≤ revision.original.length) : revision.firstOf index = index := by
  rw [firstOf, groups_eq_map h, ← List.map_take, ← List.flatMap_def, List.flatMap_singleton',
    List.length_take, List.length_mapIdx, Nat.min_eq_left hindex]

variable (hone : OneForOne revision.history)
  (hsame : List.Forall₂ revision.Same revision.groups.flatten revision.revised)

include hone hsame

theorem length_revised : revision.revised.length = revision.original.length := by
  rw [← hsame.length_eq, flatten_groups hone, List.length_mapIdx]

/-- The instruction that a revised one stands for. -/
theorem exists_same {index : Nat} {after : Instruction}
    (hafter : revision.revised[index]? = some after) :
    ∃ before, revision.original[index]? = some before ∧
      revision.Same (substitute revision.history index before) after := by
  obtain ⟨hlt, rfl⟩ := List.getElem?_eq_some_iff.mp hafter
  obtain ⟨hlength, heach⟩ := List.forall₂_iff_get.mp hsame
  have hbefore : index < revision.original.length := length_revised hone hsame ▸ hlt
  have hpair := heach index (hlength ▸ hlt) hlt
  simp only [flatten_groups hone, List.get_eq_getElem, List.getElem_mapIdx] at hpair
  exact ⟨_, List.getElem?_eq_getElem hbefore, hpair⟩

omit hsame in
/-- Where an offset has gone is where the instruction starts that has started there. -/
theorem startsAt_of_goes (hascending : (origins revision.revised).Pairwise (· < ·))
    (hbound : ∀ origin ∈ origins revision.revised, origin < revision.newLength)
    {index old new : Nat} (hgoes : revision.Goes old new)
    (hstarts : StartsAt revision.revised index new) : StartsAt revision.original index old := by
  cases hgoes with
  | stop =>
    obtain ⟨after, hafter, horigin⟩ := hstarts
    exact absurd (hbound _ (mem_origins.mpr ⟨after, List.mem_of_getElem? hafter, horigin⟩))
      (Nat.lt_irrefl _)
  | @instruction number _ _ before after hbefore hold hafter hnew =>
    have hlt := (List.getElem?_eq_some_iff.mp hbefore).1
    obtain rfl : number = index := by
      rw [firstOf_eq hone (Nat.le_of_lt hlt)] at hafter
      exact StartsAt.unique hascending ⟨after, hafter, hnew⟩ hstarts
    exact ⟨before, hbefore, hold⟩

end Revision

end ClassWeaver.Code
