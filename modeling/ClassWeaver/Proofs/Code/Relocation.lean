import ClassWeaver.Code.Assemble
import ClassWeaver.Proofs.Code.WellFormed

/-!
The relocation of a layout.

Instructions are laid out in order and without overlap, each at the end of those in front of it
(`getElem?_layout`). An old offset goes to the first instruction with that origin, and the end of
the old body to the end of the new one (`map_ofLayout_eq_ok`). When the origins of a list ascend,
the relocation keeps the order of offsets (`map_ofLayout_lt`).
-/

set_option autoImplicit false
set_option relaxedAutoImplicit false

namespace ClassWeaver.Code

/-! ### Layout -/

@[simp] theorem layoutEnd_cons (offset : Nat) (instruction : Instruction)
    (rest : List Instruction) : layoutEnd offset (instruction :: rest) =
      layoutEnd (offset + instruction.size offset) rest :=
  rfl

theorem le_layoutEnd (offset : Nat) (instructions : List Instruction) :
    offset ≤ layoutEnd offset instructions := by
  induction instructions generalizing offset with
  | nil => exact Nat.le_refl offset
  | cons instruction rest ih => exact Nat.le_trans (Nat.le_add_right _ _) (ih _)

/-- An instruction stands where those in front of it end. -/
theorem getElem?_layout (offset : Nat) (instructions : List Instruction) (index : Nat) :
    (layout offset instructions)[index]? =
      instructions[index]?.map fun instruction ↦
        (layoutEnd offset (instructions.take index), instruction) := by
  induction instructions generalizing offset index with
  | nil => simp [layout]
  | cons instruction rest ih =>
    cases index with
    | zero => rfl
    | succ index => simpa [layout] using ih (offset + instruction.size offset) index

theorem map_snd_layout (offset : Nat) (instructions : List Instruction) :
    (layout offset instructions).map Prod.snd = instructions := by
  induction instructions generalizing offset with
  | nil => rfl
  | cons instruction rest ih => rw [layout, List.map_cons, ih]

theorem mem_of_mem_layout {offset : Nat} {instructions : List Instruction}
    {place : Nat × Instruction} (h : place ∈ layout offset instructions) :
    place.2 ∈ instructions := by
  have hmem := List.mem_map_of_mem (f := Prod.snd) h
  rwa [map_snd_layout] at hmem

/-- Every instruction lies inside the layout. -/
theorem bounds_of_mem_layout {offset : Nat} {instructions : List Instruction}
    {place : Nat × Instruction} (h : place ∈ layout offset instructions) :
    offset ≤ place.1 ∧ place.1 + place.2.size place.1 ≤ layoutEnd offset instructions := by
  induction instructions generalizing offset with
  | nil => cases h
  | cons instruction rest ih =>
    rw [layoutEnd_cons]
    rcases List.mem_cons.mp h with rfl | h
    · exact ⟨Nat.le_refl offset, le_layoutEnd _ rest⟩
    · obtain ⟨hge, hle⟩ := ih h
      exact ⟨by omega, hle⟩

theorem lt_layoutEnd_of_mem_layout {offset : Nat} {instructions : List Instruction}
    {place : Nat × Instruction} (h : place ∈ layout offset instructions) :
    place.1 < layoutEnd offset instructions := by
  have hend := (bounds_of_mem_layout h).2
  have hpos := place.2.size_pos place.1
  omega

/-- One instruction stands in front of another one, and so do their origins. -/
def Precedes (first second : Nat × Instruction) : Prop :=
  first.1 < second.1 ∧ ∀ old ∈ first.2.origin, ∀ later ∈ second.2.origin, old < later

/-- Instructions with ascending origins stand in ascending places. -/
theorem pairwise_layout {instructions : List Instruction}
    (horigins : (origins instructions).Pairwise (· < ·)) (offset : Nat) :
    (layout offset instructions).Pairwise Precedes := by
  induction instructions generalizing offset with
  | nil => exact .nil
  | cons instruction rest ih =>
    have htail : (origins rest).Pairwise (· < ·) :=
      horigins.sublist (List.Sublist.filterMap _ (List.sublist_cons_self _ _))
    refine .cons (fun place hplace ↦ ⟨?_, fun old hold later hlater ↦ ?_⟩) (ih htail _)
    · have hge := (bounds_of_mem_layout hplace).1
      have hpos := instruction.size_pos offset
      omega
    · rw [origins, List.filterMap_cons_some hold] at horigins
      exact (List.pairwise_cons.mp horigins).1 later
        (mem_origins.mpr ⟨place.2, mem_of_mem_layout hplace, hlater⟩)

/-- With ascending origins, the one or the other of two places is in front. -/
theorem precedes_trichotomy {instructions : List Instruction} {offset : Nat}
    (horigins : (origins instructions).Pairwise (· < ·)) {place other : Nat × Instruction}
    (hplace : place ∈ layout offset instructions) (hother : other ∈ layout offset instructions) :
    Precedes place other ∨ place = other ∨ Precedes other place := by
  obtain ⟨first, hfirst, rfl⟩ := List.mem_iff_getElem.mp hplace
  obtain ⟨second, hsecond, rfl⟩ := List.mem_iff_getElem.mp hother
  have hpairwise := List.pairwise_iff_getElem.mp (pairwise_layout horigins offset)
  rcases Nat.lt_trichotomy first second with hbefore | rfl | hbehind
  · exact .inl (hpairwise first second hfirst hsecond hbefore)
  · exact .inr (.inl rfl)
  · exact .inr (.inr (hpairwise second first hsecond hfirst hbehind))

/-- Ascending origins tell the places of a layout apart. -/
theorem eq_of_mem_layout {instructions : List Instruction} {offset origin : Nat}
    (horigins : (origins instructions).Pairwise (· < ·)) {place other : Nat × Instruction}
    (hplace : place ∈ layout offset instructions) (hother : other ∈ layout offset instructions)
    (horigin : place.2.origin = some origin) (hsame : other.2.origin = some origin) :
    place = other := by
  rcases precedes_trichotomy horigins hplace hother with hbefore | hequal | hbehind
  · exact absurd (hbefore.2 origin horigin origin hsame) (Nat.lt_irrefl origin)
  · exact hequal
  · exact absurd (hbehind.2 origin hsame origin horigin) (Nat.lt_irrefl origin)

/-! ### Where offsets go -/

namespace Relocation

/-- The step of `ofLayout` that enters one instruction. -/
private theorem getElem?_enter (moved : Std.TreeMap Nat Nat) (new offset : Nat)
    (origin : Option Nat) :
    (match origin with
      | some origin => moved.insertIfNew origin new
      | none => moved)[offset]? =
      moved[offset]?.or (if origin = some offset then some new else none) := by
  cases origin with
  | none => simp
  | some origin =>
    rw [Std.TreeMap.getElem?_insertIfNew]
    by_cases hsame : origin = offset
    · subst hsame
      by_cases hknown : origin ∈ moved
      · rw [Std.TreeMap.getElem?_eq_some_getElem hknown]
        simp [hknown]
      · rw [Std.TreeMap.getElem?_eq_none hknown]
        simp [hknown]
    · simp [hsame]

private theorem getElem?_foldl_enter (places : List (Nat × Instruction))
    (moved : Std.TreeMap Nat Nat) (offset : Nat) :
    (places.foldl (fun moved (new, instruction) ↦
      match instruction.origin with
      | some origin => moved.insertIfNew origin new
      | none => moved) moved)[offset]? =
      moved[offset]?.or
        ((places.find? fun place ↦ place.2.origin == some offset).map Prod.fst) := by
  induction places generalizing moved with
  | nil => simp
  | cons place rest ih =>
    rw [List.foldl_cons, ih, getElem?_enter, Option.or_assoc, List.find?_cons]
    congr 1
    by_cases horigin : place.2.origin = some offset
    · simp [horigin]
    · rw [if_neg horigin, Option.none_or, beq_false_of_ne horigin]

/-- Of several instructions with one origin, the first is looked up. -/
theorem getElem?_moved (oldLength : Nat) (instructions : List Instruction) (offset : Nat) :
    (ofLayout oldLength instructions).moved[offset]? =
      ((layout 0 instructions).find? fun place ↦ place.2.origin == some offset).map Prod.fst := by
  have h := getElem?_foldl_enter (layout 0 instructions) ∅ offset
  rwa [Std.TreeMap.getElem?_emptyc, Option.none_or] at h

variable {oldLength offset new : Nat} {instructions : List Instruction}

/-- Whatever has a new place is the end or the origin of an instruction that stands there. -/
theorem map_ofLayout_eq_ok (h : (ofLayout oldLength instructions).map offset = .ok new) :
    (offset = oldLength ∧ new = layoutEnd 0 instructions) ∨
      ∃ place ∈ layout 0 instructions, place.1 = new ∧ place.2.origin = some offset := by
  unfold map at h
  split at h
  · rename_i hend
    cases h
    exact Or.inl ⟨hend, rfl⟩
  · right
    rw [getElem?_moved] at h
    cases hfound : (layout 0 instructions).find? fun place ↦ place.2.origin == some offset with
    | none =>
      rw [hfound] at h
      cases h
    | some place =>
      rw [hfound] at h
      cases h
      exact ⟨place, List.mem_of_find?_eq_some hfound, rfl, by simpa using List.find?_some hfound⟩

theorem map_ofLayout_le (h : (ofLayout oldLength instructions).map offset = .ok new) :
    new ≤ layoutEnd 0 instructions := by
  rcases map_ofLayout_eq_ok h with ⟨-, rfl⟩ | ⟨place, hplace, rfl, -⟩
  · exact Nat.le_refl _
  · exact Nat.le_of_lt (lt_layoutEnd_of_mem_layout hplace)

/-- The origin of any instruction has a new place, unless it is confused with the end. -/
theorem exists_map_ofLayout (hne : offset ≠ oldLength) (hmem : offset ∈ origins instructions) :
    ∃ place ∈ layout 0 instructions,
      (ofLayout oldLength instructions).map offset = .ok place.1 := by
  obtain ⟨instruction, hinstruction, horigin⟩ := mem_origins.mp hmem
  rw [← map_snd_layout 0 instructions] at hinstruction
  obtain ⟨place, hplace, rfl⟩ := List.mem_map.mp hinstruction
  cases hfound : (layout 0 instructions).find? fun place ↦ place.2.origin == some offset with
  | none => simpa [horigin] using List.find?_eq_none.mp hfound place hplace
  | some first =>
    refine ⟨first, List.mem_of_find?_eq_some hfound, ?_⟩
    rw [map, if_neg (show offset ≠ (ofLayout oldLength instructions).oldLength from hne),
      getElem?_moved, hfound]
    rfl

/-- A relocation of ascending origins keeps the order of offsets. -/
theorem map_ofLayout_lt {later newLater : Nat}
    (horigins : (origins instructions).Pairwise (· < ·))
    (hbound : ∀ origin ∈ origins instructions, origin < oldLength)
    (hoffset : (ofLayout oldLength instructions).map offset = .ok new)
    (hlater : (ofLayout oldLength instructions).map later = .ok newLater) (hlt : offset < later) :
    new < newLater := by
  rcases map_ofLayout_eq_ok hoffset with ⟨rfl, -⟩ | ⟨place, hplace, rfl, horigin⟩
  · rcases map_ofLayout_eq_ok hlater with ⟨rfl, -⟩ | ⟨other, hother, rfl, hotherOrigin⟩
    · exact absurd hlt (Nat.lt_irrefl _)
    · have hinside := hbound later
        (mem_origins.mpr ⟨other.2, mem_of_mem_layout hother, hotherOrigin⟩)
      omega
  · rcases map_ofLayout_eq_ok hlater with ⟨rfl, rfl⟩ | ⟨other, hother, rfl, hotherOrigin⟩
    · exact lt_layoutEnd_of_mem_layout hplace
    · rcases precedes_trichotomy horigins hplace hother with hbefore | rfl | hbehind
      · exact hbefore.1
      · rw [horigin] at hotherOrigin
        cases hotherOrigin
        exact absurd hlt (Nat.lt_irrefl _)
      · have horder := hbehind.2 later hotherOrigin offset horigin
        exact absurd hlt (Nat.lt_asymm horder)

end Relocation

end ClassWeaver.Code
