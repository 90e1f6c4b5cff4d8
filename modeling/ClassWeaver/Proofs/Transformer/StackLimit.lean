import ClassWeaver.Proofs.Transformer.StackRoom

/-!
Where the room on the operand stack ends.

A body asks for at most 65535 slots. If one does so and then gets to an assignment to an `int` field
with all of them in use, that is replaced like any other, and the new body gets deeper than what it
asks for; otherwise rewritten bodies ask for enough (`depthsWithin_of_weave`). The bodies of a
family fill the stack with zeros in front of an assignment, so that the last of them gets there
(`not_depthsWithin_filling`).
-/

set_option autoImplicit false
set_option relaxedAutoImplicit false

namespace ClassWeaver

open ClassFile Code

namespace Increment

/-! ### A family of bodies -/

/-- Pushes `count` zeros of two slots each and one of one slot, which it assigns to a field. -/
def fillingCode (count : Nat) : Bytes :=
  List.replicate count 0x09 ++ [0x03, 0xb3, 0, 8, 0xb1]

def fillingFront (count : Nat) : List Instruction :=
  (List.range count).map fun offset ↦ ⟨0x09, .none, some offset⟩

/-- What follows from `offset` on. -/
def fillingEnd (offset : Nat) : List Instruction :=
  [⟨0x03, .none, some offset⟩, ⟨.putstatic, .constant 8, some (offset + 1)⟩,
    ⟨0xb1, .none, some (offset + 4)⟩]

def fillingInstructions (count : Nat) : List Instruction :=
  fillingFront count ++ fillingEnd count

/-- What follows when one is added to the field instead. -/
def filledEnd (offset : Nat) : List Instruction :=
  [⟨0x03, .none, some offset⟩, ⟨.pop, .none, some (offset + 1)⟩, .withConstant .getstatic 8,
    .plain 0x04, .plain .iadd, .withConstant .putstatic 8, ⟨0xb1, .none, some (offset + 4)⟩]

def fillingEffects (count index : Nat) : Effect :=
  if index < count then ⟨0, 2⟩ else if index = count then ⟨0, 1⟩
  else if index = count + 1 then ⟨1, 0⟩ else ⟨0, 0⟩

section Filling

variable {count : Nat} {maxStack : UInt16}

theorem length_fillingFront : (fillingFront count).length = count := by
  rw [fillingFront, List.length_map, List.length_range]

theorem mem_fillingFront {instruction : Instruction} (h : instruction ∈ fillingFront count) :
    instruction.opcode = 0x09 ∧ instruction.operand = .none := by
  obtain ⟨offset, -, rfl⟩ := List.mem_map.mp h
  exact ⟨rfl, rfl⟩

theorem getElem?_filling (offset : Nat) :
    (fillingInstructions count)[count + offset]? = (fillingEnd count)[offset]? := by
  rw [fillingInstructions, List.getElem?_append_right (by simp [length_fillingFront]),
    length_fillingFront, Nat.add_sub_cancel_left]

theorem filling_cases {index : Nat} {instruction : Instruction}
    (h : (fillingInstructions count)[index]? = some instruction) :
    (index < count ∧ instruction.content = (0x09, .none)) ∨
    (index = count ∧ instruction.content = (0x03, .none)) ∨
    (index = count + 1 ∧ instruction.content = (.putstatic, .constant 8)) ∨
    (index = count + 2 ∧ instruction.content = (0xb1, .none)) := by
  rcases Nat.lt_or_ge index count with hfront | hback
  · rw [fillingInstructions, List.getElem?_append_left (by rwa [length_fillingFront])] at h
    obtain ⟨hopcode, hoperand⟩ := mem_fillingFront (List.mem_of_getElem? h)
    exact .inl ⟨hfront, Prod.ext hopcode hoperand⟩
  · obtain ⟨offset, rfl⟩ := Nat.exists_eq_add_of_le hback
    rw [getElem?_filling] at h
    match offset, h with
    | 0, h =>
      obtain rfl := Option.some.inj h
      exact .inr (.inl ⟨rfl, rfl⟩)
    | 1, h =>
      obtain rfl := Option.some.inj h
      exact .inr (.inr (.inl ⟨rfl, rfl⟩))
    | 2, h =>
      obtain rfl := Option.some.inj h
      exact .inr (.inr (.inr ⟨rfl, rfl⟩))

theorem plain_filling : ∀ instruction ∈ fillingInstructions count,
    instruction.operand.targets = [] ∧ instruction.opcode ≠ .ret := by
  intro instruction hmem
  obtain ⟨index, hindex⟩ := List.mem_iff_getElem?.mp hmem
  rcases filling_cases hindex with ⟨-, h⟩ | ⟨-, h⟩ | ⟨-, h⟩ | ⟨-, h⟩
  all_goals
    obtain ⟨hopcode, hoperand⟩ := Prod.mk.inj h
    exact ⟨by rw [hoperand]; rfl, by rw [hopcode]; decide⟩

theorem readFrom_filling (bound offset count : Nat) :
    readFrom (bound + 3 + count) offset (fillingCode count) =
      .ok ((List.range' offset count).map (fun offset ↦ ⟨0x09, .none, some offset⟩) ++
        fillingEnd (offset + count)) := by
  induction count generalizing offset with
  | zero =>
    have hreturn : readFrom (bound + 1) (offset + 4) [0xb1] =
        .ok [⟨0xb1, .none, some (offset + 4)⟩] :=
      readFrom_of_next (show Reading.next _ _ = .ok (⟨0xb1, .none, 1⟩, []) from rfl)
        (by rw [readFrom])
    have hput : readFrom (bound + 2) (offset + 1) [0xb3, 0, 8, 0xb1] =
        .ok (⟨.putstatic, .constant 8, some (offset + 1)⟩ :: [⟨0xb1, .none, some (offset + 4)⟩]) :=
      readFrom_of_next (show Reading.next _ _ = .ok (⟨.putstatic, .constant 8, 3⟩, _) from rfl)
        hreturn
    exact readFrom_of_next (show Reading.next _ _ = .ok (⟨0x03, .none, 1⟩, _) from rfl) hput
  | succ count ih =>
    have hnext : Reading.next offset (fillingCode (count + 1)) =
        .ok (⟨0x09, .none, 1⟩, fillingCode count) := rfl
    have hread := readFrom_of_next hnext (ih (offset + 1))
    rw [Nat.add_right_comm offset 1 count] at hread
    exact hread

theorem decode_filling (count : Nat) :
    decode (fillingCode count) = .ok (fillingInstructions count) := by
  refine decode_eq_ok_iff.mpr ⟨?_, fun instruction hmem target htarget ↦ ?_⟩
  · have hread := readFrom_filling 2 0 count
    rw [← List.range_eq_range', Nat.zero_add, Nat.add_comm] at hread
    rwa [fillingCode, List.length_append, List.length_replicate]
  · rw [(plain_filling instruction hmem).1] at htarget
    cases htarget

/-! ### What the family does to the stack -/

theorem depthBehind?_filling {index : Nat} (hindex : index ≤ count) :
    depthBehind? ((List.range index).map (fillingEffects count)) 0 = some (2 * index) := by
  induction index with
  | zero => rfl
  | succ index ih =>
    have heffect : fillingEffects count index = ⟨0, 2⟩ := if_pos hindex
    rw [List.range_succ, List.map_append, depthBehind?_append, ih (Nat.le_of_succ_le hindex),
      List.map_singleton, heffect]
    rfl

theorem depthBehind?_filling_value :
    depthBehind? ((List.range (count + 1)).map (fillingEffects count)) 0 =
      some (2 * count + 1) := by
  have heffect : fillingEffects count count = ⟨0, 1⟩ := by
    rw [fillingEffects, if_neg (Nat.lt_irrefl _), if_pos rfl]
  rw [List.range_succ, List.map_append, depthBehind?_append, depthBehind?_filling (Nat.le_refl _),
    List.map_singleton, heffect]
  rfl

theorem fillingEffects_assignment : fillingEffects count (count + 1) = ⟨1, 0⟩ := by
  rw [fillingEffects, if_neg (by omega), if_neg (by omega), if_pos rfl]

theorem depthBehind?_filling_end :
    depthBehind? ((List.range (count + 2)).map (fillingEffects count)) 0 = some (2 * count) := by
  rw [List.range_succ, List.map_append, depthBehind?_append, depthBehind?_filling_value,
    List.map_singleton, fillingEffects_assignment]
  rfl

theorem depthsWithin_filling : DepthsWithin (2 * count + 1) (fillingInstructions count) []
    (fillingEffects count) := by
  intro index depth hreaches
  obtain ⟨hindex, hdepth⟩ := hreaches.of_straight
    (fun instruction hmem ↦ (plain_filling instruction hmem).1)
    (fun instruction hmem ↦ (plain_filling instruction hmem).2)
  rcases filling_cases (List.getElem?_eq_getElem hindex) with
    ⟨hfront, -⟩ | ⟨rfl, -⟩ | ⟨rfl, -⟩ | ⟨rfl, -⟩
  · have hsame := Option.some.inj (hdepth.symm.trans (depthBehind?_filling (Nat.le_of_lt hfront)))
    omega
  · have hsame := Option.some.inj (hdepth.symm.trans (depthBehind?_filling (Nat.le_refl _)))
    omega
  · exact Nat.le_of_eq (Option.some.inj (hdepth.symm.trans depthBehind?_filling_value))
  · have hsame := Option.some.inj (hdepth.symm.trans depthBehind?_filling_end)
    omega

/-- All that was pushed is there when the assignment is reached. -/
theorem reaches_filling : Reaches (fillingInstructions count) [] (fillingEffects count) (count + 1)
    (2 * count + 1) := by
  refine reaches_of_falls ?_ (fun place instruction hplace hfound ↦ ?_) depthBehind?_filling_value
  · exact (List.getElem?_eq_some_iff.mp (getElem?_filling 1)).1
  · rcases filling_cases hfound with ⟨-, h⟩ | ⟨-, h⟩ | ⟨rfl, -⟩ | ⟨rfl, -⟩
    · rw [(Prod.mk.inj h).1]
      decide
    · rw [(Prod.mk.inj h).1]
      decide
    · exact absurd hplace (Nat.lt_irrefl _)
    · exact absurd hplace (Nat.not_lt.mpr (Nat.le_succ _))

theorem assigning_filling :
    Assigning zeroing.pool (fillingInstructions count) (fillingEffects count) := by
  intro index instruction field hfound hassigned
  obtain ⟨hwrites, -, -⟩ := assigned?_eq_some.mp hassigned
  rcases filling_cases hfound with ⟨-, h⟩ | ⟨-, h⟩ | ⟨rfl, h⟩ | ⟨-, h⟩
  · exact absurd hwrites (by rw [(Prod.mk.inj h).1]; decide)
  · exact absurd hwrites (by rw [(Prod.mk.inj h).1]; decide)
  · rw [fillingEffects_assignment, takes, hassigned]
    dsimp only
    rw [if_neg (by rw [(Prod.mk.inj h).1]; decide)]
  · exact absurd hwrites (by rw [(Prod.mk.inj h).1]; decide)

theorem assignsAt_filling : AssignsAt zeroing.pool (fillingInstructions count) (count + 1) :=
  ⟨_, 8, getElem?_filling 1, rfl⟩

/-! ### How the family is rewritten -/

def fillingBody (count : Nat) (maxStack : UInt16) : MethodBody :=
  ⟨maxStack, 0, fillingCode count, [], []⟩

/-- The class whose method has such a body. -/
def fillingFile (count : Nat) (maxStack : UInt16) : ClassFile :=
  { zeroing with methods := [⟨8, 4, 5, [⟨3, .code (fillingBody count maxStack)⟩]⟩] }

def fillingClass (count : Nat) (maxStack : UInt16) : EditableClass :=
  ⟨"A", fillingFile count maxStack, (fillingFile count maxStack).bytes, false, false⟩

/-- The editor of the body, before and after the assignment is replaced. -/
def fillingEditor (count : Nat) : Editor :=
  ⟨zeroing.pool, (fillingInstructions count).toArray, ∅, ∅, 0⟩

def fillingBlock (count : Nat) : List Instruction :=
  addition ⟨count + 1, .putstatic, 8⟩ (.plain 0x04)

def filledEditor (count : Nat) : Editor :=
  ((fillingEditor count).replace (count + 1) (fillingBlock count)).reserveStack 1

theorem ofBody_filling :
    Editor.ofBody zeroing.pool (fillingBody count maxStack) = .ok (fillingEditor count) := by
  rw [Editor.ofBody, fillingBody, decode_filling]
  rfl

theorem assignments_filling :
    assignments (fillingInstructions count) = [⟨count + 1, .putstatic, 8⟩] := by
  rw [assignments, fillingInstructions, List.zipIdx_append, List.filterMap_append,
    List.filterMap_eq_nil_iff.mpr, List.nil_append, length_fillingFront, Nat.zero_add]
  · rfl
  · rintro ⟨instruction, index⟩ hmem
    have hfound := List.mem_of_getElem? (List.mem_zipIdx_iff_getElem?.mp hmem)
    exact if_neg (by rw [(mem_fillingFront hfound).1]; decide)

theorem editBody_filling :
    (editBody 1).run.run (fillingEditor count) = (.ok (), filledEditor count) := by
  refine edit_bind_eq_ok.mpr ⟨fillingEditor count, fillingEditor count, rfl, ?_⟩
  rw [fillingEditor, List.toList_toArray, assignments_filling]
  exact edit_bind_eq_ok.mpr ⟨(), _, rfl, rfl⟩

theorem replacements_filled : (filledEditor count).replacements =
    (∅ : Std.TreeMap Nat (List Instruction)).insert (count + 1) (fillingBlock count) := by
  have hold : (fillingEditor count).instructions[count + 1]? =
      some ⟨.putstatic, .constant 8, some (count + 1)⟩ := by
    rw [fillingEditor, List.getElem?_toArray]
    exact getElem?_filling 1
  rw [filledEditor, Editor.replace, hold]
  rfl

theorem standIn_filled (index : Nat) (old : Instruction) :
    (filledEditor count).standIn index old =
      if index = count + 1 then Editor.inherit old.origin (fillingBlock count) else [old] := by
  rw [Editor.standIn, replacements_filled]
  split_ifs with hindex
  · rw [hindex, Std.TreeMap.getElem?_insert_self]
  · rw [Std.TreeMap.getElem?_insert, if_neg (by simpa using Ne.symm hindex),
      Std.TreeMap.getElem?_emptyc]

theorem edited_filled : (filledEditor count).edited = fillingFront count ++ filledEnd count := by
  have hinstructions : (filledEditor count).instructions = (fillingEditor count).instructions :=
    Editor.instructions_replay (fillingEditor count) [.replace (count + 1) (fillingBlock count)]
  have hfront : ((fillingFront count).zipIdx 0).flatMap
      (fun place ↦ (filledEditor count).standIn place.2 place.1) = fillingFront count := by
    have hkept : ∀ place ∈ (fillingFront count).zipIdx 0,
        (filledEditor count).standIn place.2 place.1 = [place.1] := by
      intro place hmem
      have hlt := (List.getElem?_eq_some_iff.mp (List.mem_zipIdx_iff_getElem?.mp hmem)).1
      rw [length_fillingFront] at hlt
      rw [standIn_filled, if_neg (Nat.ne_of_lt (Nat.lt_succ_of_lt hlt))]
    rw [List.flatMap_congr hkept, ← List.map_eq_flatMap, List.zipIdx_map_fst]
  have hback : ((fillingEnd count).zipIdx count).flatMap
      (fun place ↦ (filledEditor count).standIn place.2 place.1) = filledEnd count := by
    change (filledEditor count).standIn count _ ++ ((filledEditor count).standIn (count + 1) _ ++
      ((filledEditor count).standIn (count + 1 + 1) _ ++ [])) = _
    rw [standIn_filled, if_neg (by omega), standIn_filled, if_pos rfl, standIn_filled,
      if_neg (by omega)]
    rfl
  rw [Editor.edited, hinstructions, fillingEditor, List.toList_toArray, fillingInstructions,
    List.zipIdx_append, List.flatMap_append, length_fillingFront, Nat.zero_add]
  exact congrArg₂ (· ++ ·) hfront hback

theorem layoutEnd_append {front : List Instruction}
    (hfront : ∀ instruction ∈ front, instruction.operand = .none) (offset : Nat)
    (back : List Instruction) :
    layoutEnd offset (front ++ back) = layoutEnd (offset + front.length) back := by
  induction front generalizing offset with
  | nil => rfl
  | cons first rest ih =>
    obtain ⟨hfirst, hrest⟩ := List.forall_mem_cons.mp hfront
    have hsize : first.size offset = 1 := by rw [Instruction.size, hfirst]
    rw [List.cons_append, layoutEnd_cons, hsize, ih hrest, List.length_cons, Nat.add_assoc,
      Nat.add_comm 1]

theorem plain_filled : ∀ instruction ∈ fillingFront count ++ filledEnd count,
    instruction.operand.targets = [] := by
  refine List.forall_mem_append.mpr ⟨fun instruction hmem ↦ ?_, ?_⟩
  · rw [(mem_fillingFront hmem).2]
    rfl
  · simp only [filledEnd, List.forall_mem_cons, List.not_mem_nil, false_imp_iff, implies_true,
      and_true]
    exact ⟨rfl, rfl, rfl, rfl, rfl, rfl, rfl⟩

/-- As long as that does not make the body too long, the assignment is replaced. -/
theorem weave_filling (maxStack : UInt16) (hcount : count + 11 ≤ maxCodeLength) :
    ∃ bytes after, ((Increment.mk "A" "m" 1 .skip).transformer : Transformer Unit).weave.run.run
      (fillingClass count maxStack) = (.ok (some bytes), after) := by
  have hlength : layoutEnd 0 (filledEditor count).edited = count + 11 := by
    rw [edited_filled, layoutEnd_append fun _ hmem ↦ (mem_fillingFront hmem).2,
      length_fillingFront, Nat.zero_add]
    rfl
  have hmodified : (filledEditor count).isModified = true := by
    rw [Editor.isModified, replacements_filled]
    simp
  have happlied : ((filledEditor count).apply (fillingBody count maxStack)).failure = none :=
    apply_failure_of_plain rfl rfl hmodified (edited_filled ▸ plain_filled) (hlength ▸ hcount)
  have hmethod : (fillingFile count maxStack).methods[0]? =
      some ⟨8, 4, 5, [⟨3, .code (fillingBody count maxStack)⟩]⟩ := rfl
  have hedit : (Increment.mk "A" "m" 1 .skip).editClass.run.run
      (fillingClass count maxStack).defrost = (.ok true, _) :=
    editSelected_eq_ok_iff.mpr ⟨0, rfl, rfl,
      .modified hmethod rfl ofBody_filling editBody_filling hmodified happlied⟩
  have hweave := editUnlessFrozen_run .skip (Increment.mk "A" "m" 1 .skip).editClass
    (fillingClass count maxStack)
  rw [hedit] at hweave
  exact ⟨_, _, hweave⟩

theorem indexed_filling (count : Nat) (maxStack : UInt16) :
    (fillingClass count maxStack).file.pool.Indexed :=
  (settled_of_parse parse_zeroing).pool.indexed

/-- What is read from the class before it is rewritten. -/
theorem original_filling {after : EditableClass}
    {expand : Nat → Instruction → List Instruction} {original revised : List Instruction}
    {old new : MethodBody}
    (h : BodyExpanded "m" expand (fillingClass count maxStack) after original revised old new) :
    original = fillingInstructions count ∧ old = fillingBody count maxStack := by
  obtain ⟨index, method, hindex, hmethod, hbody, -⟩ := h.selected
  obtain rfl : 0 = index := Except.ok.inj hindex
  cases hmethod
  cases hbody
  exact ⟨Except.ok.inj (h.decoded.symm.trans (decode_filling count)), rfl⟩

/-- When the assignment is reached with 65535 slots, no more of them are asked for. -/
theorem exceeds_filling (hcount : count + 11 ≤ maxCodeLength)
    (hroom : maxStack.toNat = 2 * count + 1) (hmost : 2 * count + 1 = 65535) :
    ∃ bytes after original revised old new push,
      ((Increment.mk "A" "m" 1 .skip).transformer : Transformer Unit).weave.run.run
        (fillingClass count maxStack) = (.ok (some bytes), after) ∧
      BodyExpanded "m" (inFront (reading zeroing.pool push)) (fillingClass count maxStack) after
        original revised old new ∧
      Assigning zeroing.pool original (fillingEffects count) ∧
      DepthsWithin old.maxStack.toNat original old.handlers (fillingEffects count) ∧
      ¬ DepthsWithin new.maxStack.toNat revised new.handlers
        (carried insertedEffect (reading zeroing.pool push) original (fillingEffects count)) := by
  obtain ⟨bytes, after, hrun⟩ := weave_filling maxStack hcount
  obtain ⟨original, revised, old, new, push, -, hexpanded, hpushes, hraised⟩ :=
    expanded_of_weave (indexed_filling count maxStack) hrun
  obtain ⟨rfl, rfl⟩ := original_filling hexpanded
  have hwithin : DepthsWithin maxStack.toNat (fillingInstructions count) []
      (fillingEffects count) := hroom ▸ depthsWithin_filling
  refine ⟨bytes, after, _, revised, _, new, push, hrun, hexpanded, assigning_filling, hwithin,
    fun hlater ↦ ?_⟩
  exact (depthsWithin_reading_iff hexpanded.decoded hpushes hexpanded.expands hraised
    assigning_filling hwithin).mp hlater _ assignsAt_filling (hmost ▸ reaches_filling)

end Filling

end Increment

namespace Wrapper

/-! ### A body that returns a reference -/

def itselfInstructions : List Instruction :=
  [⟨0x2a, .none, some 0⟩, ⟨.areturn, .none, some 1⟩]

def itselfEffects (index : Nat) : Effect :=
  if index = 0 then ⟨0, 1⟩ else ⟨1, 0⟩

theorem returning_itself : Returning itselfInstructions itselfEffects := by
  rintro index ⟨instruction, hfound, hopcode⟩
  match index, hfound with
  | 0, hfound =>
    obtain rfl := Option.some.inj hfound
    exact absurd hopcode (by decide)
  | 1, _ => rfl

theorem depthsWithin_itself : DepthsWithin 1 itselfInstructions [] itselfEffects := by
  intro index depth hreaches
  obtain ⟨hindex, hdepth⟩ := hreaches.of_straight (by decide) (by decide)
  match index, hindex with
  | 0, _ =>
    obtain rfl := Option.some.inj hdepth
    exact Nat.zero_le _
  | 1, _ =>
    obtain rfl := Option.some.inj hdepth
    exact Nat.le_refl _

theorem original_itself {after : EditableClass} {expand : Nat → Instruction → List Instruction}
    {original revised : List Instruction} {old new : MethodBody}
    (h : BodyExpanded "m" expand itselfClass after original revised old new) :
    original = itselfInstructions ∧ old = ⟨1, 1, [0x2a, 0xb0], [], []⟩ := by
  obtain ⟨index, method, hindex, hmethod, hbody, -⟩ := h.selected
  obtain rfl : 0 = index := Except.ok.inj hindex
  cases hmethod
  cases hbody
  exact ⟨Except.ok.inj (h.decoded.symm.trans rfl), rfl⟩

end Wrapper

/-! ### The room of rewritten bodies -/

/-- If a transformer answers with new bytes, and whatever all instructions do that were there
before: where the stack got nowhere deeper than the old body asks for, it gets at most one slot
deeper after assignments to `int` fields were replaced, which is what the new body asks for unless
the old one asks for the most slots there are. It gets nowhere deeper than what is asked for if and
only if no such assignment is reached with 65535 slots. After calls were put in front of returns, it
gets nowhere deeper than what both bodies ask for. -/
theorem depthsWithin_of_weave {Loader : Type} {cls after : EditableClass} {bytes : Bytes}
    (hindexed : cls.file.pool.Indexed) :
    (∀ increment : Increment, (increment.transformer : Transformer Loader).weave.run.run cls =
        (.ok (some bytes), after) →
      ∃ original revised old new push, bytes = after.file.bytes ∧
        BodyExpanded increment.method (inFront (Increment.reading cls.file.pool push)) cls after
          original revised old new ∧
        pushedInt? after.file.pool push = some increment.amount ∧
        new.maxStack.toNat = min (old.maxStack.toNat + 1) 65535 ∧
        ∀ effects, Increment.Assigning cls.file.pool original effects →
          DepthsWithin old.maxStack.toNat original old.handlers effects →
            DepthsWithin (old.maxStack.toNat + 1) revised new.handlers
              (carried insertedEffect (Increment.reading cls.file.pool push) original effects) ∧
            (DepthsWithin new.maxStack.toNat revised new.handlers
                (carried insertedEffect (Increment.reading cls.file.pool push) original effects) ↔
              ∀ place, Increment.AssignsAt cls.file.pool original place →
                ¬ Reaches original old.handlers effects place 65535)) ∧
    ∀ wrapper : Wrapper, (wrapper.transformer : Transformer Loader).weave.run.run cls =
        (.ok (some bytes), after) →
      ∃ original revised old new call type, bytes = after.file.bytes ∧
        BodyExpanded wrapper.method (inFront (Wrapper.wrapping call)) cls after original revised
          old new ∧
        after.file.pool.memberRef call =
          .ok ⟨wrapper.owner, wrapper.wrap, Descriptor.join [type] type⟩ ∧
        new.maxStack = old.maxStack ∧
        ∀ effects, Wrapper.Returning original effects →
          DepthsWithin old.maxStack.toNat original old.handlers effects →
            DepthsWithin new.maxStack.toNat revised new.handlers
              (carried insertedEffect (Wrapper.wrapping call) original effects) := by
  refine ⟨fun increment hrun ↦ ?_, fun wrapper hrun ↦ ?_⟩
  · obtain ⟨original, revised, old, new, push, hbytes, hexpanded, hpushes, hroom⟩ :=
      Increment.expanded_of_weave hindexed hrun
    refine ⟨original, revised, old, new, push, hbytes, hexpanded, hpushes.pushed,
      hroom ▸ toNat_addStack_one old.maxStack, fun effects heffects hwithin ↦ ⟨?_, ?_⟩⟩
    · exact Increment.depthsWithin_reading hexpanded.decoded hpushes hexpanded.expands heffects
        hwithin
    · exact Increment.depthsWithin_reading_iff hexpanded.decoded hpushes hexpanded.expands hroom
        heffects hwithin
  · obtain ⟨original, revised, old, new, call, type, hbytes, hexpanded, hmember, hroom⟩ :=
      Wrapper.expanded_of_weave hindexed hrun
    exact ⟨original, revised, old, new, call, type, hbytes, hexpanded, hmember, hroom,
      fun effects heffects hwithin ↦ Wrapper.depthsWithin_wrapping hexpanded.decoded
        hexpanded.expands hroom heffects hwithin⟩

/-- Seven slots become eight, and one slot stays one. -/
theorem depthsWithin_of_weave_filling :
    (∃ bytes after original revised old new push,
      (Increment.fillingClass 3 7).file.pool.Indexed ∧
      ((Increment.mk "A" "m" 1 .skip).transformer : Transformer Unit).weave.run.run
        (Increment.fillingClass 3 7) = (.ok (some bytes), after) ∧
      BodyExpanded "m" (inFront (Increment.reading Increment.zeroing.pool push))
        (Increment.fillingClass 3 7) after original revised old new ∧
      Increment.Assigning Increment.zeroing.pool original (Increment.fillingEffects 3) ∧
      DepthsWithin 7 original old.handlers (Increment.fillingEffects 3) ∧
      new.maxStack.toNat = 8 ∧
      DepthsWithin 8 revised new.handlers (carried insertedEffect
        (Increment.reading Increment.zeroing.pool push) original (Increment.fillingEffects 3))) ∧
    ∃ bytes after original revised old new call,
      Wrapper.itselfClass.file.pool.Indexed ∧
      ((Wrapper.mk "A" "m" "F" "w" .skip).transformer : Transformer Unit).weave.run.run
        Wrapper.itselfClass = (.ok (some bytes), after) ∧
      BodyExpanded "m" (inFront (Wrapper.wrapping call)) Wrapper.itselfClass after original revised
        old new ∧
      Wrapper.Returning original Wrapper.itselfEffects ∧
      DepthsWithin 1 original old.handlers Wrapper.itselfEffects ∧
      DepthsWithin 1 revised new.handlers
        (carried insertedEffect (Wrapper.wrapping call) original Wrapper.itselfEffects) := by
  constructor
  · have hpool := Increment.indexed_filling 3 7
    have hcount : 3 + 11 ≤ maxCodeLength := by decide
    obtain ⟨bytes, after, hrun⟩ := Increment.weave_filling 7 hcount
    obtain ⟨original, revised, old, new, push, -, hexpanded, -, hroom, hdepths⟩ :=
      (depthsWithin_of_weave hpool).1 _ hrun
    obtain ⟨rfl, rfl⟩ := Increment.original_filling hexpanded
    obtain ⟨hhigher, -⟩ := hdepths (Increment.fillingEffects 3) Increment.assigning_filling
      Increment.depthsWithin_filling
    exact ⟨bytes, after, _, revised, _, new, push, hpool, hrun, hexpanded,
      Increment.assigning_filling, Increment.depthsWithin_filling, hroom, hhigher⟩
  · have hpool : Wrapper.itselfClass.file.pool.Indexed :=
      (settled_of_parse Wrapper.parse_itself).pool.indexed
    obtain ⟨bytes, after, hrun⟩ := Wrapper.weave_itself
    obtain ⟨original, revised, old, new, call, -, -, hexpanded, -, hroom, hdepths⟩ :=
      (depthsWithin_of_weave hpool).2 _ hrun
    obtain ⟨rfl, rfl⟩ := Wrapper.original_itself hexpanded
    have hwithin := hdepths Wrapper.itselfEffects Wrapper.returning_itself
      Wrapper.depthsWithin_itself
    rw [hroom] at hwithin
    exact ⟨bytes, after, _, revised, _, new, call, hpool, hrun, hexpanded,
      Wrapper.returning_itself, Wrapper.depthsWithin_itself, hwithin⟩

/-- An assignment that is reached with all the slots there are is replaced, with no room for the
slot more that this takes. -/
theorem not_depthsWithin_filling :
    ∃ bytes after original revised old new push,
      ((Increment.mk "A" "m" 1 .skip).transformer : Transformer Unit).weave.run.run
        (Increment.fillingClass 32767 65535) = (.ok (some bytes), after) ∧
      BodyExpanded "m" (inFront (Increment.reading Increment.zeroing.pool push))
        (Increment.fillingClass 32767 65535) after original revised old new ∧
      Increment.Assigning Increment.zeroing.pool original (Increment.fillingEffects 32767) ∧
      DepthsWithin old.maxStack.toNat original old.handlers (Increment.fillingEffects 32767) ∧
      ¬ DepthsWithin new.maxStack.toNat revised new.handlers (carried insertedEffect
        (Increment.reading Increment.zeroing.pool push) original
          (Increment.fillingEffects 32767)) :=
  Increment.exceeds_filling (by decide) rfl rfl

end ClassWeaver
