import ClassWeaver.Proofs.Code.Expansion
import Mathlib.Data.List.Nodup

/-!
What becomes of code that is inserted in front of instructions.

An editor keeps one edit for each instruction. Of several insertions in front of one instruction the
last one stays, and it also takes the place of any earlier edit of that instruction; in front of
different instructions all of them stay (`expanded_of_insertions`).
-/

set_option autoImplicit false
set_option relaxedAutoImplicit false

namespace ClassWeaver.Code

open ClassFile

/-- Code that is put in front of an instruction. -/
structure Insertion where
  index : Nat
  code : List Instruction

def Insertion.edit (insertion : Insertion) : Edit :=
  .insertBefore insertion.index insertion.code

/-- The code that was inserted last in front of instruction `index`. -/
def lastInserted? (insertions : List Insertion) (index : Nat) : Option (List Instruction) :=
  (insertions.reverse.find? fun insertion ↦ insertion.index == index).map Insertion.code

/-- The code that was inserted last and the instruction behind it; where nothing was inserted, what
earlier edits have put there. -/
def underInsertions (earlier : List Edit) (insertions : List Insertion) (index : Nat)
    (old : Instruction) : List Instruction :=
  match lastInserted? insertions index with
  | some code => code ++ [old]
  | none => standing earlier index old

theorem standing_insertions (earlier : List Edit) (insertions : List Insertion) (index : Nat)
    (old : Instruction) :
    standing (earlier ++ insertions.map Insertion.edit) index old =
      underInsertions earlier insertions index old := by
  have hindex : (fun edit : Edit ↦ edit.index == index) ∘ Insertion.edit =
      fun insertion ↦ insertion.index == index := rfl
  rw [standing, underInsertions, lastInserted?, List.reverse_append, List.find?_append,
    ← List.map_reverse, List.find?_map, hindex]
  cases insertions.reverse.find? fun insertion ↦ insertion.index == index with
  | some insertion => rfl
  | none => rfl

/-- Where no index is used twice, every insertion is the last one of its index. -/
theorem lastInserted?_of_nodup {insertions : List Insertion}
    (hnodup : (insertions.map Insertion.index).Nodup) {insertion : Insertion}
    (hmem : insertion ∈ insertions) :
    lastInserted? insertions insertion.index = some insertion.code := by
  rw [lastInserted?]
  cases hfound : insertions.reverse.find? fun other ↦ other.index == insertion.index with
  | none =>
    have hnone := List.find?_eq_none.mp hfound insertion (List.mem_reverse.mpr hmem)
    exact absurd (beq_self_eq_true insertion.index) hnone
  | some other =>
    have hother := List.mem_reverse.mp (List.mem_of_find?_eq_some hfound)
    have hindex : other.index = insertion.index := by simpa using List.find?_some hfound
    obtain rfl := List.inj_on_of_nodup_map hnodup hother hmem hindex
    rfl

section Applied

variable {pool : ConstantPool} {body : MethodBody} {editor : Editor}
  {original revised : List Instruction} {earlier : List Edit} {insertions : List Insertion}

/-- In a body that was read and edited, each instruction that something was inserted in front of
stands once, behind the code that was inserted there last and none that was inserted before, and
all other instructions are as earlier edits have left them. Where no index is used twice, no
insertion is lost. The body can be read if nothing that was put into it jumps to where no
instruction starts. -/
theorem expanded_of_insertions (hdecode : decode body.code = .ok original)
    (heditor : Editor.ofBody pool body = .ok editor)
    (hwell : ∀ edit ∈ earlier ++ insertions.map Insertion.edit, ∀ instruction ∈ edit.code,
      instruction.WellFormed)
    (happlied : ((editor.replay (earlier ++ insertions.map Insertion.edit)).apply
      body).failure = none) :
    let edited := ((editor.replay (earlier ++ insertions.map Insertion.edit)).apply body).value
    let expand := fun index old ↦
      (underInsertions earlier insertions index old).map Instruction.written
    (∀ revised, decode edited.code = .ok revised → Expanded expand original revised ∧
      ∀ index code old, lastInserted? insertions index = some code →
        original[index]? = some old →
          ∃ front block last back, revised = front ++ block ++ last :: back ∧
            List.Forall₂ (Matches expand original revised) (code.map Instruction.written) block ∧
              Matches expand original revised old last) ∧
    ((insertions.map Insertion.index).Nodup → ∀ insertion ∈ insertions,
      lastInserted? insertions insertion.index = some insertion.code) ∧
    ((∀ edit ∈ earlier ++ insertions.map Insertion.edit, ∀ instruction ∈ edit.code,
      ∀ target ∈ instruction.operand.targets, target ∈ origins original) →
        ∃ revised, decode edited.code = .ok revised) := by
  intro edited expand
  refine ⟨fun revised hrevised ↦ ?_, fun hnodup _ hmem ↦ lastInserted?_of_nodup hnodup hmem,
    fun htargets ↦ ?_⟩
  · have hexpanded : Expanded expand original revised := by
      have hstanding := expanded_of_decode hdecode heditor hwell happlied hrevised
      simpa only [standing_insertions] using hstanding
    refine ⟨hexpanded, fun index code old hlast hold ↦ ?_⟩
    obtain ⟨front, block, back, rfl, -, hblock⟩ := hexpanded.block hold
    have hself := written_of_decode hdecode old (List.mem_of_getElem? hold)
    simp only [expand, underInsertions, hlast, List.map_append, List.map_singleton, hself] at hblock
    obtain ⟨first, second, rfl, hfirst, hsecond⟩ := forall₂_append_left hblock
    obtain _ | ⟨hlastMatches, _ | _⟩ := hsecond
    exact ⟨front, first, _, back, by simp, hfirst, hlastMatches⟩
  · cases hmodified : (editor.replay (earlier ++ insertions.map Insertion.edit)).isModified with
    | true => exact ⟨_, (decode_apply_replay hdecode heditor hwell htargets hmodified happlied).1⟩
    | false =>
      have hsame : edited = body := by
        simp only [edited, Editor.apply, hmodified]
        rfl
      exact ⟨original, hsame ▸ hdecode⟩

end Applied

/-- An `aload_0` and an `areturn`. -/
def returningThis : MethodBody :=
  ⟨1, 1, [0x2a, 0xb0], [], []⟩

/-- Pushes a zero and drops it. -/
def pushAndDrop : List Instruction :=
  [.plain .iconst0, .plain .pop]

theorem wellFormed_pushAndDrop : ∀ instruction ∈ pushAndDrop, instruction.WellFormed :=
  List.forall_mem_cons.mpr ⟨⟨.plain, rfl, .plain⟩, List.forall_mem_singleton.mpr
    ⟨.plain, rfl, .plain⟩⟩

/-- Insertions in front of two instructions both stay. -/
theorem expanded_of_insertions_returningThis :
    ∃ editor revised, Editor.ofBody .empty returningThis = .ok editor ∧
      decode ((editor.replay ([] ++ [Insertion.mk 0 pushAndDrop,
        ⟨1, [.plain .nop]⟩].map Insertion.edit)).apply returningThis).value.code = .ok revised ∧
      lastInserted? [⟨0, pushAndDrop⟩, ⟨1, [.plain .nop]⟩] 0 = some pushAndDrop ∧
      ∃ front block last back, revised = front ++ block ++ last :: back ∧
        block.map Instruction.opcode = [.iconst0, .pop] ∧ last.opcode = 0x2a := by
  have hwell : ∀ edit ∈ [] ++ [Insertion.mk 0 pushAndDrop, ⟨1, [.plain .nop]⟩].map Insertion.edit,
      ∀ instruction ∈ edit.code, instruction.WellFormed :=
    List.forall_mem_cons.mpr ⟨wellFormed_pushAndDrop, List.forall_mem_singleton.mpr
      (List.forall_mem_singleton.mpr ⟨.plain, rfl, .plain⟩)⟩
  obtain ⟨hread, hkept, hreadable⟩ := expanded_of_insertions
    (show decode returningThis.code = .ok _ from rfl)
    (show Editor.ofBody .empty returningThis = .ok _ from rfl) hwell rfl
  obtain ⟨revised, hrevised⟩ := hreadable (by decide)
  have hlast := hkept (by decide) ⟨0, pushAndDrop⟩ (by simp)
  obtain ⟨front, block, last, back, hsplit, hblock, hmatches⟩ :=
    (hread revised hrevised).2 0 pushAndDrop ⟨0x2a, .none, some 0⟩ hlast rfl
  refine ⟨_, revised, rfl, hrevised, hlast, front, block, last, back, hsplit, ?_, hmatches.opcode⟩
  obtain _ | ⟨hfirst, _ | ⟨hsecond, _ | _⟩⟩ := hblock
  rw [List.map_cons, List.map_singleton, hfirst.opcode, hsecond.opcode]
  rfl

/-- Of two insertions in front of one instruction, the first one is lost. -/
theorem not_contained_insertedTwice :
    ∃ editor revised, Editor.ofBody .empty returningThis = .ok editor ∧
      ((editor.replay ([Insertion.mk 0 pushAndDrop, ⟨0, [.plain .nop]⟩].map
        Insertion.edit)).apply returningThis).failure = none ∧
      decode ((editor.replay ([Insertion.mk 0 pushAndDrop, ⟨0, [.plain .nop]⟩].map
        Insertion.edit)).apply returningThis).value.code = .ok revised ∧
      revised.map Instruction.opcode = [.nop, 0x2a, .areturn] ∧
      ¬ pushAndDrop.map Instruction.opcode <:+: revised.map Instruction.opcode :=
  ⟨_, _, rfl, rfl, rfl, rfl, by decide⟩

end ClassWeaver.Code
