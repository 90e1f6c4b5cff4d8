import ClassWeaver.Proofs.ClassFile.Additions
import ClassWeaver.Proofs.Code.Editing
import Mathlib.Logic.Relation

/-!
What can be done to a body through an editor.

Somebody who has an editor may record edits, reserve stack and add to the pool, in any order and as
often as they like (`Editor.Step`). Whatever they do, no instruction of the body is lost sight of,
so that its tables can move along, and the pool stays well formed.
-/

set_option autoImplicit false
set_option relaxedAutoImplicit false

namespace ClassWeaver.Code

open ClassFile

/-! ### Changes of an editor -/

section Changes

variable {α : Type} {editor edited : Editor}

theorem BodyEdit.extendPool_eq_ok {change : ConstantPool.Edit α} {answer : α}
    (h : (BodyEdit.extendPool change : BodyEdit Id α).run.run editor = (.ok answer, edited)) :
    ∃ pool, change.run.run editor.pool = (.ok answer, pool) ∧ edited = { editor with pool } := by
  obtain ⟨started, before, hstarted, h⟩ := edit_bind_eq_ok.mp h
  cases hstarted
  generalize change.run.run editor.pool = changed at h ⊢
  obtain ⟨outcome, pool⟩ := changed
  obtain ⟨recorded, between, hrecorded, h⟩ := edit_bind_eq_ok.mp h
  cases hrecorded
  cases outcome with
  | error cause => cases h
  | ok result =>
    cases h
    exact ⟨pool, rfl, rfl⟩

theorem BodyEdit.extendPool_run {change : ConstantPool.Edit α} {answer : α} {pool : ConstantPool}
    (h : change.run.run editor.pool = (.ok answer, pool)) :
    (BodyEdit.extendPool change : BodyEdit Id α).run.run editor =
      (.ok answer, { editor with pool }) := by
  refine edit_bind_eq_ok.mpr ⟨editor, editor, rfl, ?_⟩
  rw [h]
  rfl

/-- Whether it fails or not, what has become of the pool stays. -/
theorem BodyEdit.extendPool_run_snd (change : ConstantPool.Edit α) (editor : Editor) :
    ((BodyEdit.extendPool change : BodyEdit Id α).run.run editor).2 =
      { editor with pool := (change.run.run editor.pool).2 } := by
  have hstarted : (BodyEdit.editor : BodyEdit Id Editor).run.run editor = (.ok editor, editor) :=
    rfl
  rw [BodyEdit.extendPool, edit_bind_run, hstarted]
  dsimp only
  rcases change.run.run editor.pool with ⟨outcome, pool⟩
  cases outcome <;> rfl

/-- A query of the pool leaves the editor as it is. -/
theorem BodyEdit.resolve_run (query : ConstantPool → Except Malformation α) (editor : Editor) :
    (BodyEdit.resolve query : BodyEdit Id α).run.run editor = match query editor.pool with
      | .ok answer => (.ok answer, editor)
      | .error cause => (.error (.malformed cause), editor) := by
  have hstarted : (BodyEdit.editor : BodyEdit Id Editor).run.run editor = (.ok editor, editor) :=
    rfl
  rw [BodyEdit.resolve, edit_bind_run, hstarted]
  dsimp only
  cases query editor.pool <;> rfl

theorem BodyEdit.resolve_eq_ok {query : ConstantPool → Except Malformation α} {answer : α}
    (h : (BodyEdit.resolve query : BodyEdit Id α).run.run editor = (.ok answer, edited)) :
    query editor.pool = .ok answer ∧ edited = editor := by
  rw [resolve_run] at h
  cases hquery : query editor.pool with
  | error cause =>
    rw [hquery] at h
    cases h
  | ok found =>
    rw [hquery] at h
    cases h
    exact ⟨rfl, rfl⟩

theorem Editor.pool_of_ofBody {pool : ConstantPool} {body : MethodBody}
    (h : Editor.ofBody pool body = .ok editor) : editor.pool = pool := by
  obtain ⟨instructions, -, hdone⟩ := except_bind_eq_ok.mp h
  cases hdone
  rfl

theorem Editor.replay_append (editor : Editor) (first second : List Edit) :
    editor.replay (first ++ second) = (editor.replay first).replay second :=
  List.foldl_append

/-- Edits do not look at the pool. -/
theorem Editor.replay_withPool (editor : Editor) (history : List Edit) (pool : ConstantPool) :
    { editor with pool }.replay history = { editor.replay history with pool } := by
  induction history generalizing editor with
  | nil => rfl
  | cons edit rest ih =>
    have hrecord : edit.record { editor with pool } = { edit.record editor with pool } := by
      cases edit with
      | replace index code =>
        simp only [Edit.record, Editor.replace]
        split <;> rfl
      | insertBefore index code =>
        simp only [Edit.record, Editor.insertBefore]
        split <;> rfl
    exact (congrArg (Editor.replay · rest) hrecord).trans (ih (edit.record editor))

end Changes

theorem Edit.pool_record (edit : Edit) (editor : Editor) :
    (edit.record editor).pool = editor.pool := by
  cases edit with
  | replace index code =>
    simp only [record, Editor.replace]
    split <;> rfl
  | insertBefore index code =>
    simp only [record, Editor.insertBefore]
    split <;> rfl

/-! ### Sessions -/

namespace Editor

/-- A call that an editor allows. Additions to the pool may fail half way. -/
inductive Step : Editor → Editor → Prop
  | record (editor : Editor) (edit : Edit) : Step editor (edit.record editor)
  | reserve (editor : Editor) (extra : UInt16) : Step editor (editor.reserveStack extra)
  | add (editor : Editor) {addition : ConstantPool.Addition} (hshort : addition.Short) :
    Step editor { editor with pool := (addition.edit.run.run editor.pool).2 }

/-- What calls can make of an editor. -/
abbrev Becomes : Editor → Editor → Prop :=
  Relation.ReflTransGen Step

variable {editor later : Editor}

theorem Becomes.pool (h : editor.Becomes later) (hpool : editor.pool.WellFormed) :
    later.pool.WellFormed ∧ later.pool.Extends editor.pool := by
  induction h with
  | refl => exact ⟨hpool, .refl _⟩
  | tail _ hstep ih =>
    obtain ⟨hbetween, hextends⟩ := ih
    cases hstep with
    | record edit =>
      rw [Edit.pool_record]
      exact ⟨hbetween, hextends⟩
    | reserve extra => exact ⟨hbetween, hextends⟩
    | add hshort =>
      obtain ⟨hlater, hlarger⟩ := ConstantPool.Addition.safe hshort hbetween
      exact ⟨hlater, hlarger.trans hextends⟩

/-- Calls that are no edits leave what the recorded edits make of the body. -/
theorem Becomes.edited (h : editor.Becomes later) :
    ∃ history, later.instructions = (editor.replay history).instructions ∧
      later.replacements = (editor.replay history).replacements := by
  induction h with
  | refl => exact ⟨[], rfl, rfl⟩
  | tail _ hstep ih =>
    obtain ⟨history, hinstructions, hreplacements⟩ := ih
    cases hstep with
    | record edit =>
      refine ⟨history ++ [edit], ?_, ?_⟩
      · rw [Edit.instructions_record, replay_append, hinstructions]
        exact (Edit.instructions_record _ _).symm
      · rw [Edit.replacements_record, replay_append, hinstructions, hreplacements]
        exact (Edit.replacements_record _ _).symm
    | reserve extra => exact ⟨history, hinstructions, hreplacements⟩
    | add hshort => exact ⟨history, hinstructions, hreplacements⟩

end Editor

/-- Whatever the editor is, the edit does with it only what an editor allows. -/
def BodyEdit.Allowed {α : Type} (edit : BodyEdit Id α) : Prop :=
  ∀ editor : Editor, editor.Becomes (edit.run.run editor).2

namespace BodyEdit

variable {α β : Type}

theorem allowed_record (edit : Edit) : (BodyEdit.record edit.record : BodyEdit Id Unit).Allowed :=
  fun editor ↦ .single (.record editor edit)

theorem allowed_pure (answer : α) : (pure answer : BodyEdit Id α).Allowed :=
  fun _ ↦ .refl

theorem allowed_resolve (query : ConstantPool → Except Malformation α) :
    (BodyEdit.resolve query : BodyEdit Id α).Allowed := by
  intro editor
  have hrun : ((BodyEdit.resolve query : BodyEdit Id α).run.run editor).2 = editor := by
    rw [resolve_run]
    cases query editor.pool <;> rfl
  rw [hrun]

theorem allowed_extendPool {addition : ConstantPool.Addition} (hshort : addition.Short) :
    (BodyEdit.extendPool addition.edit : BodyEdit Id UInt16).Allowed := by
  intro editor
  rw [extendPool_run_snd]
  exact .single (.add editor hshort)

theorem Allowed.bind {first : BodyEdit Id α} {next : α → BodyEdit Id β} (hfirst : first.Allowed)
    (hnext : ∀ answer, (next answer).Allowed) : (first >>= next).Allowed := by
  intro editor
  have hbetween := hfirst editor
  rw [edit_bind_run]
  rcases hran : first.run.run editor with ⟨outcome, between⟩
  rw [hran] at hbetween
  cases outcome with
  | error fault => exact hbetween
  | ok answer => exact hbetween.trans (hnext answer between)

theorem allowed_forM {items : List β} {step : β → BodyEdit Id Unit}
    (h : ∀ item ∈ items, (step item).Allowed) : (items.forM step).Allowed := by
  induction items with
  | nil => exact allowed_pure ()
  | cons item rest ih =>
    obtain ⟨hitem, hrest⟩ := List.forall_mem_cons.mp h
    exact hitem.bind fun _ ↦ ih hrest

end BodyEdit

/-! ### The size of assembled code -/

section Size

variable {relocation : Relocation} {offset : Nat} {bytes : Bytes}

theorem length_flatMap_signed32 (distances : List Int) :
    (distances.flatMap signed32).length = 4 * distances.length := by
  have hwidth : ∀ row ∈ distances.map signed32, row.length = 4 :=
    List.forall_mem_map.mpr fun distance _ ↦ length_signed32 distance
  rw [List.flatMap_def, length_flatten_of_length hwidth, List.length_map]

theorem length_of_encodeRow {row : Int32 × Nat}
    (h : encodeRow relocation offset row = .ok bytes) : bytes.length = 8 := by
  obtain ⟨distance, -, h⟩ := except_bind_eq_ok.mp h
  cases h
  rfl

/-- Whatever the operand is, an instruction takes the room that it was laid out for. -/
theorem length_of_encode {instruction : Instruction}
    (h : instruction.encode relocation offset = .ok bytes) :
    bytes.length = instruction.size offset := by
  obtain ⟨opcode, operand, origin⟩ := instruction
  unfold Instruction.encode at h
  unfold Instruction.size
  cases operand with
  | none | byte _ | arrayType _ | short _ | interfaceCall _ _ | dynamicCall _ | multiArray _ _ =>
    cases h
    rfl
  | constant _ | slot _ | increment _ _ =>
    -- Both are short under the same condition.
    dsimp only at h ⊢
    split at h
    all_goals
      cases h
      rename_i hform
      first
      | rw [if_pos hform]; rfl
      | rw [if_neg hform]; rfl
  | branch target =>
    obtain ⟨distance, -, h⟩ := except_bind_eq_ok.mp h
    dsimp only at h ⊢
    split at h
    · rename_i hwide
      cases h
      rw [if_pos hwide]
      rfl
    · rename_i hnarrow
      rw [if_neg hnarrow]
      split at h
      · cases h
        rfl
      · cases h
  | tableSwitch otherwise low high targets =>
    obtain ⟨first, -, h⟩ := except_bind_eq_ok.mp h
    obtain ⟨distances, hdistances, h⟩ := except_bind_eq_ok.mp h
    cases h
    have hcount := (forall₂_of_mapM_eq_ok hdistances).length_eq
    simp only [List.length_append, List.length_cons, List.length_replicate, length_signed32,
      length_bytes32, length_flatMap_signed32]
    omega
  | lookupSwitch otherwise rows =>
    obtain ⟨first, -, h⟩ := except_bind_eq_ok.mp h
    obtain ⟨encoded, hencoded, h⟩ := except_bind_eq_ok.mp h
    cases h
    have hrows := forall₂_of_mapM_eq_ok hencoded
    have hcount := hrows.length_eq
    have hwidth : ∀ row ∈ encoded, row.length = 8 := fun row hmem ↦ by
      obtain ⟨source, -, hsource⟩ := exists_of_forall₂ hrows hmem
      exact length_of_encodeRow hsource
    simp only [List.length_append, List.length_cons, List.length_replicate, length_signed32,
      length_bytes32, length_flatten_of_length hwidth]
    omega

/-- Encoded instructions fill the layout. -/
theorem length_flatten_encoded {instructions : List Instruction} {encoded : List Bytes}
    (h : List.Forall₂ (fun place bytes ↦ place.2.encode relocation place.1 = .ok bytes)
      (layout offset instructions) encoded) :
    offset + encoded.flatten.length = layoutEnd offset instructions := by
  induction instructions generalizing offset encoded with
  | nil =>
    cases h
    rfl
  | cons instruction rest ih =>
    obtain _ | ⟨hfirst, hrest⟩ := h
    rw [List.flatten_cons, List.length_append, length_of_encode hfirst, layoutEnd_cons,
      ← ih hrest, Nat.add_assoc]

theorem length_assemble_le {instructions : List Instruction} {oldLength : Nat} {code : Bytes}
    (h : assemble instructions oldLength = .ok (code, relocation)) :
    code.length ≤ maxCodeLength := by
  obtain ⟨-, hend, encoded, rfl, hencoded⟩ := assemble_eq_ok h
  rwa [← length_flatten_encoded hencoded, Nat.zero_add] at hend

end Size

/-! ### Edited bodies -/

/-- The body after an edit: the code is not too long, and the tables of the body have moved along
to offsets inside it. -/
structure BodyEdited (before after : MethodBody) : Prop where
  code : after.code.length ≤ maxCodeLength
  tables : BodyMoved (fun _ new ↦ new ≤ maxCodeLength) before after

variable {pool : ConstantPool} {body : MethodBody} {editor later : Editor}

theorem edited_of_apply (heditor : Editor.ofBody pool body = .ok editor)
    (hbecomes : editor.Becomes later) (hmodified : later.isModified = true)
    (happlied : (later.apply body).failure = none) :
    BodyEdited body (later.apply body).value := by
  obtain ⟨history, hinstructions, hreplacements⟩ := hbecomes.edited
  have hedited : later.edited = (editor.replay history).edited := by
    unfold Editor.edited Editor.standIn
    rw [hinstructions, hreplacements]
  obtain ⟨hascending, hbound⟩ := hedited ▸ ascending_edited heditor history
  rw [Editor.apply, if_pos hmodified] at happlied ⊢
  obtain ⟨code, relocation, hassemble, hcode, -, htables⟩ := relocateBody_moved happlied
  exact ⟨hcode ▸ length_assemble_le hassemble,
    htables _ (follows_assemble hascending hbound hassemble)⟩

end ClassWeaver.Code
