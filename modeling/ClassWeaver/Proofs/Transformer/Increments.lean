import ClassWeaver.Proofs.ClassFile.ReadBack
import ClassWeaver.Proofs.Code.Running
import ClassWeaver.Proofs.Transformer.Selecting
import ClassWeaver.Proofs.Unmodified

/-!
What becomes of assignments to `int` fields.

All edits of one body push the amount alike, since a number that was added to the pool is found
there again (`forM_replaceAssignment_eq_ok`). So the new body is an expansion of the old one, with
one block for every assignment (`expands_of_applied`), and when such a block runs it adds the amount
to the field (`adds_of_expanded`). That is what is read from the bytes of a class that does not
count as modified, unless a text was added to its pool that is too long to be written
(`incremented_of_weave`).
-/

set_option autoImplicit false
set_option relaxedAutoImplicit false

namespace ClassWeaver

open ClassFile Code Text

namespace Increment

variable {amount : Int32} {pool larger : ConstantPool} {editor edited : Editor}
  {found : List Assignment}

/-! ### The edits of assignments -/

/-- Whether a reference is to an `int` field. -/
def isInt (pool : ConstantPool) (field : UInt16) : Bool :=
  (pool.memberRef field).toOption.any fun member ↦ member.descriptor == "I"

theorem isInt_iff {field : UInt16} : isInt pool field = true ↔
    ∃ member, pool.memberRef field = .ok member ∧ member.descriptor = "I" := by
  rw [isInt]
  cases pool.memberRef field <;> simp [Except.toOption]

/-- A number in the pool does not change what a field is. -/
theorem isInt_of_grown (h : larger = pool ∨ larger = pool.push (.integer amount)) :
    isInt larger = isInt pool := by
  rcases h with rfl | rfl
  · rfl
  funext field
  refine Bool.eq_iff_iff.mpr (isInt_iff.trans (Iff.trans ?_ isInt_iff.symm))
  refine exists_congr fun member ↦ and_congr_left fun _ ↦ ⟨fun hlarger ↦ ?_, fun hpool ↦ ?_⟩
  · exact ConstantPool.numberless_memberRef _ _ _ _ hlarger
  · exact ConstantPool.lasting_memberRef _ _ _ _ (ConstantPool.extends_push _ _) hpool

/-- The edits that replace assignments. -/
def replacements (push : Instruction) (found : List Assignment) : List Edit :=
  found.map fun assignment ↦ .replace assignment.index (addition assignment push)

/-- What becomes of one assignment. -/
theorem replaceAssignment_eq_ok {assignment : Assignment}
    (h : (replaceAssignment amount assignment).run.run editor = (.ok (), edited)) :
    (isInt editor.pool assignment.field = false ∧ edited = editor) ∨
    (isInt editor.pool assignment.field = true ∧ ∃ push larger extraStack,
      (Instruction.pushInt amount).run.run editor.pool = (.ok push, larger) ∧
        edited = (editor.replay (replacements push [assignment])).withRoom larger
          extraStack) := by
  obtain ⟨member, between, hresolved, hrest⟩ := edit_bind_eq_ok.mp h
  obtain ⟨hmember, rfl⟩ := BodyEdit.resolve_eq_ok hresolved
  have hisInt : isInt between.pool assignment.field = (member.descriptor == "I") := by
    rw [isInt, hmember]
    rfl
  rw [hisInt]
  by_cases hint : member.descriptor = "I"
  · right
    rw [if_pos hint] at hrest
    obtain ⟨push, extended, hpush, hrecorded⟩ := edit_bind_eq_ok.mp hrest
    obtain ⟨larger, hlarger, rfl⟩ := BodyEdit.extendPool_eq_ok hpush
    cases hrecorded
    refine ⟨beq_iff_eq.mpr hint, push, larger,
      max (between.replay (replacements push [assignment])).extraStack 1, hlarger, ?_⟩
    exact congrArg (Editor.reserveStack · 1)
      (between.replay_withPool (replacements push [assignment]) larger)
  · left
    rw [if_neg hint] at hrest
    cases hrest
    exact ⟨beq_false_of_ne hint, rfl⟩

theorem forM_replaceAssignment_eq_ok (hindexed : editor.pool.Indexed)
    (h : (found.forM (replaceAssignment amount)).run.run editor = (.ok (), edited)) :
    (edited = editor ∧ found.filter (isInt editor.pool ·.field) = []) ∨
    ∃ push larger extraStack,
      (Instruction.pushInt amount).run.run editor.pool = (.ok push, larger) ∧
        edited = (editor.replay (replacements push
          (found.filter (isInt editor.pool ·.field)))).withRoom larger extraStack := by
  induction found generalizing editor with
  | nil =>
    cases h
    exact .inl ⟨rfl, rfl⟩
  | cons first rest ih =>
    obtain ⟨_, between, hfirst, hrest⟩ := edit_bind_eq_ok.mp h
    rcases replaceAssignment_eq_ok hfirst with
      ⟨hother, rfl⟩ | ⟨hint, push, larger, extraStack, hpush, rfl⟩
    · rw [List.filter_cons_of_neg (by simp [hother])]
      exact ih hindexed hrest
    · right
      obtain ⟨hpushed, -, hlarger, -, hgrown, hagain⟩ := pushes_of_pushInt hindexed hpush
      rw [List.filter_cons_of_pos (by exact hint)]
      have hsame := isInt_of_grown hgrown
      rcases ih hlarger hrest with ⟨rfl, hnone⟩ | ⟨other, largest, extra, hother, rfl⟩
      · change rest.filter (isInt larger ·.field) = [] at hnone
        exact ⟨push, larger, extraStack, hpush, by rw [← hsame, hnone]⟩
      · obtain ⟨rfl, rfl⟩ : push = other ∧ larger = largest := by
          cases hagain.symm.trans hother
          exact ⟨rfl, rfl⟩
        refine ⟨push, larger, extra, hpush, ?_⟩
        rw [replay_withRoom]
        change ((editor.replay (replacements push [first])).replay
          (replacements push (rest.filter (isInt larger ·.field)))).withRoom larger extra = _
        rw [← Editor.replay_append, hsame]
        rfl

/-! ### What stands in the place of an assignment -/

/-- The `int` field that an instruction assigns to. -/
def assigned? (pool : ConstantPool) (instruction : Instruction) : Option UInt16 :=
  if instruction.opcode = .putfield ∨ instruction.opcode = .putstatic then
    instruction.poolIndex?.filter (isInt pool)
  else none

/-- Instead of an assignment to an `int` field, the assigned value is dropped, and what `push`
pushes is added to the field. -/
def incremented (pool : ConstantPool) (push : Instruction) (_index : Nat) (old : Instruction) :
    List Instruction :=
  match assigned? pool old with
  | none => [old]
  | some field =>
    if old.opcode = .putfield then
      [.plain .pop, .plain .dup, .withConstant .getfield field, push, .plain .iadd,
        .withConstant .putfield field]
    else
      [.plain .pop, .withConstant .getstatic field, push, .plain .iadd,
        .withConstant .putstatic field]

variable {original : List Instruction} {index : Nat} {old push : Instruction} {field : UInt16}
  {assignment : Assignment}

theorem assignment?_eq_some :
    assignment? old index = some assignment ↔ assignment.index = index ∧
      assignment.opcode = old.opcode ∧ (old.opcode = .putfield ∨ old.opcode = .putstatic) ∧
        old.poolIndex? = some assignment.field := by
  obtain ⟨place, opcode, field⟩ := assignment
  rw [assignment?]
  split
  · rename_i hwrites
    rw [Option.map_eq_some_iff]
    constructor
    · rintro ⟨found, hfound, hsame⟩
      cases hsame
      exact ⟨rfl, rfl, hwrites, hfound⟩
    · rintro ⟨rfl, rfl, -, hfield⟩
      exact ⟨field, hfield, rfl⟩
  · rename_i hother
    simp [hother]

theorem mem_assignments : assignment ∈ assignments original ↔
    ∃ old, original[assignment.index]? = some old ∧
      assignment? old assignment.index = some assignment := by
  rw [assignments, List.mem_filterMap]
  constructor
  · rintro ⟨⟨old, index⟩, hold, hfound⟩
    obtain rfl : assignment.index = index := (assignment?_eq_some.mp hfound).1
    exact ⟨old, List.mem_zipIdx_iff_getElem?.mp hold, hfound⟩
  · rintro ⟨old, hold, hfound⟩
    exact ⟨(old, assignment.index), List.mem_zipIdx_iff_getElem?.mpr hold, hfound⟩

theorem assigned?_eq_some : assigned? pool old = some field ↔
    (old.opcode = .putfield ∨ old.opcode = .putstatic) ∧ old.poolIndex? = some field ∧
      isInt pool field = true := by
  rw [assigned?]
  split
  · rename_i hwrites
    rw [Option.filter_eq_some_iff]
    exact (and_iff_right hwrites).symm
  · rename_i hother
    simp [hother]

theorem incremented_of_assigned (h : assigned? pool old = some field) :
    incremented pool push index old = addition ⟨index, old.opcode, field⟩ push := by
  obtain ⟨hwrites, -, -⟩ := assigned?_eq_some.mp h
  rw [incremented, h]
  by_cases hput : old.opcode = .putfield
  · simp [addition, hput]
  · simpa [addition, hput] using
      congrArg (Instruction.withConstant · field) (hwrites.resolve_left hput).symm

theorem incremented_of_unassigned (h : assigned? pool old = none) :
    incremented pool push index old = [old] := by
  rw [incremented, h]

theorem straight_withConstant {opcode : Opcode} (hform : opcode.form? = some .constant)
    (hldc : opcode ≠ .ldc) (constant : UInt16) :
    (Instruction.withConstant opcode constant).Straight :=
  ⟨⟨.constant, hform, .constant constant⟩, rfl, hldc⟩

/-- Nothing of what stands in the place of an assignment jumps. -/
theorem straight_addition (hpush : push.Straight)
    (hwrites : assignment.opcode = .putfield ∨ assignment.opcode = .putstatic) :
    ∀ instruction ∈ addition assignment push, instruction.Straight := by
  have hplain {opcode : Opcode} (hform : opcode.form? = some .plain) (hldc : opcode ≠ .ldc) :
      (Instruction.plain opcode).Straight :=
    ⟨⟨.plain, hform, .plain⟩, rfl, hldc⟩
  have hread : ∀ instruction ∈ (if assignment.opcode = .putfield then
      [Instruction.plain .dup, Instruction.withConstant .getfield assignment.field]
      else [Instruction.withConstant .getstatic assignment.field]), instruction.Straight := by
    split
    · exact List.forall_mem_cons.mpr ⟨hplain rfl (by decide),
        List.forall_mem_singleton.mpr (straight_withConstant rfl (by decide) _)⟩
    · exact List.forall_mem_singleton.mpr (straight_withConstant rfl (by decide) _)
  have hwrite : (Instruction.withConstant assignment.opcode assignment.field).Straight := by
    rcases hwrites with hput | hput
    all_goals
      rw [hput]
      exact straight_withConstant rfl (by decide) _
  refine List.forall_mem_cons.mpr ⟨hplain rfl (by decide), fun instruction hmem ↦ ?_⟩
  rcases List.mem_append.mp hmem with hfirst | hlast
  · exact hread instruction hfirst
  · exact List.forall_mem_cons.mpr ⟨hpush, List.forall_mem_cons.mpr ⟨hplain rfl (by decide),
      List.forall_mem_singleton.mpr hwrite⟩⟩ instruction hlast

/-- The edits put in the place of each instruction what belongs there. -/
theorem standing_replacements (hold : original[index]? = some old) :
    standing (replacements push ((assignments original).filter (isInt pool ·.field))) index old =
      incremented pool push index old := by
  have hedits {edit : Edit}
      (hedit : edit ∈ replacements push ((assignments original).filter (isInt pool ·.field)))
      (hindex : edit.index = index) : ∃ field, assigned? pool old = some field ∧
        edit = .replace index (addition ⟨index, old.opcode, field⟩ push) := by
    obtain ⟨⟨place, opcode, field⟩, hfound, rfl⟩ := List.mem_map.mp hedit
    obtain ⟨hassignment, hint⟩ := List.mem_filter.mp hfound
    obtain rfl : place = index := hindex
    obtain ⟨other, hother, hassigns⟩ := mem_assignments.mp hassignment
    obtain rfl := Option.some.inj (hold.symm.trans hother)
    obtain ⟨-, rfl, hwrites, hfield⟩ := assignment?_eq_some.mp hassigns
    exact ⟨field, assigned?_eq_some.mpr ⟨hwrites, hfield, hint⟩, rfl⟩
  cases hassigned : assigned? pool old with
  | none =>
    rw [incremented_of_unassigned hassigned]
    refine standing_of_forall_ne old fun edit hedit hindex ↦ ?_
    obtain ⟨field, hother, -⟩ := hedits hedit hindex
    cases hassigned.symm.trans hother
  | some field =>
    obtain ⟨hwrites, hfield, hint⟩ := assigned?_eq_some.mp hassigned
    have hfound : ⟨index, old.opcode, field⟩ ∈
        (assignments original).filter (isInt pool ·.field) :=
      List.mem_filter.mpr ⟨mem_assignments.mpr
        ⟨old, hold, assignment?_eq_some.mpr ⟨rfl, rfl, hwrites, hfield⟩⟩, hint⟩
    have hedit := List.mem_map_of_mem (f := fun assignment ↦
      Edit.replace assignment.index (addition assignment push)) hfound
    refine standing_of_forall ⟨_, hedit, rfl⟩ fun edit hedit hindex ↦ ?_
    obtain ⟨other, hother, rfl⟩ := hedits hedit hindex
    obtain rfl := Option.some.inj (hassigned.symm.trans hother)
    rw [incremented_of_assigned hassigned]
    rfl

/-! ### Running what stands in the place of an assignment -/

/-- On a value for the field, the block drops the value and adds the amount to what the field held,
and changes nothing else, whatever the objects and the fields are. -/
structure Adds (pool : ConstantPool) (amount : Int32) (member : MemberRef) (opcode : Opcode)
    (block : List Instruction) : Prop where
  ofObject : opcode = .putfield → ∀ (Object Field : Type) [DecidableEq Object]
    [DecidableEq Field] (resolve : MemberRef → Field)
    (fields : Option Object → Field → Value Object)
    (stack : List (Value Object)) (value : Value Object) (owner : Object) (number : Int32),
      value.isWide = false → fields (some owner) (resolve member) = .int number →
        runAll? pool resolve block ⟨value :: .object owner :: stack, fields⟩ =
          some ⟨stack, assign fields (some owner) (resolve member) (.int (number + amount))⟩
  static : opcode = .putstatic → ∀ (Object Field : Type) [DecidableEq Object]
    [DecidableEq Field] (resolve : MemberRef → Field)
    (fields : Option Object → Field → Value Object)
    (stack : List (Value Object)) (value : Value Object) (number : Int32),
      value.isWide = false → fields none (resolve member) = .int number →
        runAll? pool resolve block ⟨value :: stack, fields⟩ =
          some ⟨stack, assign fields none (resolve member) (.int (number + amount))⟩

variable {member : MemberRef}

theorem Adds.congr {opcode : Opcode} {block other : List Instruction}
    (h : Adds pool amount member opcode block)
    (hcontent : other.map Instruction.content = block.map Instruction.content) :
    Adds pool amount member opcode other where
  ofObject hput _ _ _ _ resolve fields stack value owner number hnarrow hfield :=
    (runAll?_congr hcontent).trans
      (h.ofObject hput _ _ resolve fields stack value owner number hnarrow hfield)
  static hput _ _ _ _ resolve fields stack value number hnarrow hfield :=
    (runAll?_congr hcontent).trans
      (h.static hput _ _ resolve fields stack value number hnarrow hfield)

theorem adds_addition (hpushed : pushedInt? pool push = some amount)
    (hmember : pool.memberRef assignment.field = .ok member) :
    Adds pool amount member assignment.opcode (addition assignment push) where
  ofObject hput _ _ _ _ resolve fields stack value owner number hnarrow hfield := by
    have hblock : addition assignment push = [.plain .pop, .plain .dup,
        .withConstant .getfield assignment.field, push, .plain .iadd,
        .withConstant .putfield assignment.field] := by
      rw [addition, if_pos hput, hput]
      rfl
    rw [hblock, runAll?_cons (run?_pop rfl hnarrow), runAll?_cons (run?_dup rfl rfl),
      runAll?_cons (run?_getfield rfl hmember rfl owner), hfield,
      runAll?_cons (run?_of_pushed hpushed)]
    exact (runAll?_cons (run?_iadd rfl number amount)).trans
      (runAll?_cons (run?_putfield rfl hmember rfl owner))
  static hput _ _ _ _ resolve fields stack value number hnarrow hfield := by
    have hblock : addition assignment push = [.plain .pop,
        .withConstant .getstatic assignment.field, push, .plain .iadd,
        .withConstant .putstatic assignment.field] := by
      rw [addition, if_neg (by rw [hput]; decide), hput]
      rfl
    rw [hblock, runAll?_cons (run?_pop rfl hnarrow), runAll?_cons (run?_getstatic rfl hmember rfl),
      hfield, runAll?_cons (run?_of_pushed hpushed)]
    exact (runAll?_cons (run?_iadd rfl number amount)).trans
      (runAll?_cons (run?_putstatic rfl hmember rfl))

/-! ### The edit of a body -/

theorem editBody_eq_ok (hindexed : editor.pool.Indexed)
    (h : (editBody amount).run.run editor = (.ok (), edited)) :
    ∃ push larger extraStack,
      edited = (editor.replay (replacements push ((assignments editor.instructions.toList).filter
        (isInt editor.pool ·.field)))).withRoom larger extraStack ∧
      ((assignments editor.instructions.toList).filter (isInt editor.pool ·.field) = [] ∨
        (Instruction.pushInt amount).run.run editor.pool = (.ok push, larger)) := by
  obtain ⟨_, _, hstarted, hreplaced⟩ := edit_bind_eq_ok.mp h
  cases hstarted
  rcases forM_replaceAssignment_eq_ok hindexed hreplaced with
    ⟨rfl, hnone⟩ | ⟨push, larger, extraStack, hpush, hedited⟩
  · exact ⟨.plain .nop, edited.pool, edited.extraStack, by rw [hnone]; rfl, .inl hnone⟩
  · exact ⟨push, larger, extraStack, hedited, .inr hpush⟩

/-- Whether it succeeds or not, an `int` is pushed with what is there or with one more number. -/
theorem allowed_pushInt (amount : Int32) :
    (BodyEdit.extendPool (Instruction.pushInt amount) : BodyEdit Id Instruction).Allowed := by
  intro editor
  rw [BodyEdit.extendPool_run_snd, pushInt_run]
  split
  · exact .refl
  split
  · exact .refl
  split
  · exact .refl
  have hshort : (ConstantPool.Addition.integer amount).Short := nofun
  have hstep := Editor.Step.add editor hshort
  change editor.Step
    { editor with pool := ((ConstantPool.addInteger amount).run.run editor.pool).2 } at hstep
  rcases hadded : (ConstantPool.addInteger amount).run.run editor.pool with ⟨outcome, larger⟩
  rw [hadded] at hstep
  cases outcome with
  | ok index => exact .single hstep
  | error cause => exact .single hstep

theorem allowed_editBody (amount : Int32) : (editBody amount).Allowed := by
  have hstarted : (BodyEdit.editor : BodyEdit Id Editor).Allowed := fun _ ↦ .refl
  refine hstarted.bind fun editor ↦ BodyEdit.allowed_forM fun assignment _ ↦ ?_
  refine (BodyEdit.allowed_resolve _).bind fun member ↦ ?_
  split
  · refine (allowed_pushInt amount).bind fun push editor ↦ ?_
    exact (Relation.ReflTransGen.single (.record editor (.replace _ _))).tail (.reserve _ 1)
  · exact BodyEdit.allowed_pure ()

section Method

variable {body : MethodBody} {later : Editor} {cls after : EditableClass} {method : Member}

/-- What is left when no edit was recorded. -/
theorem assigned?_of_unmodified (heditor : Editor.ofBody pool body = .ok editor)
    (hindexed : pool.Indexed) (hran : (editBody amount).run.run editor = (.ok (), later))
    (hmodified : later.isModified = false) :
    ∀ instruction ∈ editor.instructions.toList, assigned? pool instruction = none := by
  intro instruction hmem
  obtain rfl := Editor.pool_of_ofBody heditor
  obtain ⟨push, larger, extraStack, rfl, -⟩ := editBody_eq_ok hindexed hran
  obtain ⟨index, hold⟩ := List.mem_iff_getElem?.mp hmem
  have hstanding := standing_of_unmodified hmodified (Array.getElem?_toList ▸ hold)
  rw [standing_replacements hold] at hstanding
  cases hassigned : assigned? editor.pool instruction with
  | none => rfl
  | some field =>
    rw [incremented_of_assigned hassigned] at hstanding
    simp [addition] at hstanding

/-- A method that is left as it was has no body, or no assignment to an `int` field in it. -/
theorem unassigned_of_unedited (hindexed : cls.file.pool.Indexed)
    (h : MethodEdited index (fun _ ↦ editBody amount) cls false after) :
    ∃ method, cls.file.methods[index]? = some method ∧
      ∀ body, method.body? = some body → ∃ original, decode body.code = .ok original ∧
        ∀ instruction ∈ original, assigned? cls.file.pool instruction = none := by
  cases h with
  | bodiless hmethod hbody =>
    refine ⟨_, hmethod, fun body hother ↦ ?_⟩
    cases hbody.symm.trans hother
  | unmodified hmethod hbody heditor hran hmodified =>
    refine ⟨_, hmethod, fun body hother ↦ ?_⟩
    obtain rfl := Option.some.inj (hbody.symm.trans hother)
    exact ⟨_, (Editor.ofBody_eq_ok heditor).1,
      assigned?_of_unmodified heditor hindexed hran hmodified⟩

/-- The edit of a body puts in the place of each instruction what belongs there. -/
theorem expands_of_applied (hindexed : cls.file.pool.Indexed)
    (h : Applied index (fun _ ↦ editBody amount) cls after method body editor later) :
    ∃ original revised push, decode body.code = .ok original ∧
      Pushes amount cls.file.pool after.file.pool push ∧
        Expands (incremented cls.file.pool push) original revised body
          (later.apply body).value := by
  obtain ⟨hdecode, hblank, -⟩ := Editor.ofBody_eq_ok h.opened
  have hsame := Editor.pool_of_ofBody h.opened
  rw [← hsame] at hindexed ⊢
  obtain ⟨push, larger, extraStack, hlater, hnone | hpush⟩ := editBody_eq_ok hindexed h.recorded
  · -- Nothing to replace means that nothing was recorded.
    have hunmodified : later.isModified = false := by
      rw [hlater, hnone, isModified_withRoom]
      change (!editor.replacements.isEmpty) = false
      rw [hblank]
      rfl
    cases hunmodified.symm.trans h.modified
  · have hlarger : after.file.pool = larger := h.pool.trans (congrArg Editor.pool hlater)
    have hpushes := pushes_of_pushInt hindexed hpush
    have hstraight : ∀ edit ∈ replacements push ((assignments editor.instructions.toList).filter
        (isInt editor.pool ·.field)), ∀ instruction ∈ edit.code, instruction.Straight := by
      intro edit hedit
      obtain ⟨assignment, hfound, rfl⟩ := List.mem_map.mp hedit
      obtain ⟨old, -, hassigns⟩ := mem_assignments.mp (List.mem_filter.mp hfound).1
      obtain ⟨-, hopcode, hwrites, -⟩ := assignment?_eq_some.mp hassigns
      exact straight_addition hpushes.straight (hopcode ▸ hwrites)
    obtain ⟨revised, hexpands⟩ := expands_of_straight hdecode h.opened hstraight
      (fun _ _ hold ↦ standing_replacements hold) hlater h.modified h.applied
    exact ⟨_, revised, push, hdecode, hlarger ▸ hpushes, hexpands⟩

/-- Where an assignment was, a block stands that adds to the field. -/
theorem adds_of_expanded {revised : List Instruction}
    (hexpanded : Expanded (incremented pool push) original revised)
    (hpushes : Pushes amount pool larger push) (hold : original[index]? = some old)
    (hassigned : assigned? pool old = some field) :
    ∃ member front block back, pool.memberRef field = .ok member ∧
      revised = front ++ (block ++ back) ∧
        front.length = blockStart (incremented pool push) original index ∧
          Adds larger amount member old.opcode block := by
  obtain ⟨hwrites, -, hint⟩ := assigned?_eq_some.mp hassigned
  obtain ⟨member, hmember, -⟩ := isInt_iff.mp hint
  obtain ⟨front, block, back, rfl, hfront, hblock⟩ := hexpanded.block hold
  refine ⟨member, front, block, back, hmember, rfl, hfront, ?_⟩
  rw [incremented_of_assigned hassigned] at hblock
  have hcontent := content_of_matches hblock fun instruction hmem ↦
    (straight_addition hpushes.straight hwrites instruction hmem).targets
  exact (adds_addition hpushes.pushed
    (ConstantPool.lasting_memberRef _ _ _ _ hpushes.extending hmember)).congr hcontent

/-- Whatever a program has done to a class that was read, and whatever was added to its pool: while
the class is open to edits and does not count as modified, it is changed as follows. If there are
new bytes, they are those of a class in which the selected method is what it was when it was read,
with `pop; dup; getfield f; k; iadd; putfield f` in the place of every `putfield f` and
`pop; getstatic f; k; iadd; putstatic f` in the place of every `putstatic f` where `f` is an `int`
field, and with all jumps to such an assignment leading to the `pop`; and on a value for the field,
that adds the amount to the field and does nothing else. The bytes are read as that class if and
only if no text that was added is longer than its length can tell. Without new bytes, the method
has no body, or there is no assignment to an `int` field in it. -/
theorem incremented_of_weave {Loader α : Type} {increment : Increment} {name : String}
    {input : Bytes} {discipline : ClassEdit.Discipline} {program : ClassEdit Id α}
    {outcome : Except Failure α} {first : EditableClass}
    {additions : List ConstantPool.Addition} {answer : Option Bytes}
    (hparse : EditableClass.parse name input = .ok first)
    (hcomposed : ClassEdit.Composed discipline program)
    (hprogram : program.run.run first = (outcome, cls))
    (hadded : first.file.pool.extend additions = cls.file.pool)
    (hmodified : cls.modified = false) (hfrozen : cls.frozen = false)
    (hrun : (increment.transformer : Transformer Loader).weave.run.run cls = (.ok answer, after)) :
    ∃ index method, cls.findMethod increment.method = .ok index ∧
      cls.file.methods[index]? = some method ∧
      (∀ bytes, answer = some bytes →
        (∃ original revised body new push,
          Rewritten (incremented cls.file.pool push) index original revised body new cls.file
            cls.file.widened after.file.widened ∧
          (∃ earlier old, first.file.methods[index]? = some earlier ∧ earlier.body? = some old ∧
            decode old.code = .ok original) ∧
          pushedInt? after.file.pool push = some increment.amount ∧
          ∀ place old field, original[place]? = some old →
            assigned? cls.file.pool old = some field →
              ∃ member front block back, cls.file.pool.memberRef field = .ok member ∧
                revised = front ++ (block ++ back) ∧
                  front.length = blockStart (incremented cls.file.pool push) original place ∧
                    Adds after.file.pool increment.amount member old.opcode block) ∧
        (after.file.Fits → (ClassFile.parse bytes = .ok after.file.widened ↔
          ∀ addition ∈ additions, ∀ text ∈ addition.texts, cls.file.pool.Holds text →
            (ModifiedUtf8.encode text).length ≤ maxCount)) ∧
        (3 * input.length + maxCodeLength < 4294967296 → after.file.Fits)) ∧
      (answer = none → ∀ body, method.body? = some body → ∃ original,
        decode body.code = .ok original ∧
          ∀ instruction ∈ original, assigned? cls.file.pool instruction = none) := by
  obtain ⟨-, -, -, hfile⟩ := EditableClass.of_parse_eq_ok hparse
  have hsettled := settled_of_parse hfile
  have hbrought := ConstantPool.brought_extend (ConstantPool.wellFormed_iff.mp hsettled.pool).1
    additions
  have hshort := ConstantPool.forall_short_extend_iff hsettled.pool additions
  rw [hadded] at hbrought hshort
  have hindexed := hbrought.framed.indexed
  have hbodies := ((hcomposed.keeps_bodies.follows hprogram).unmodified hmodified).2
  cases answer with
  | some bytes =>
    obtain ⟨between, hedit, rfl, rfl⟩ := edited_of_editUnlessFrozen hrun
    rw [EditableClass.defrost_of_thawed hfrozen] at hedit
    obtain ⟨index, hselected, -, hedited⟩ := editSelected_eq_ok_iff.mp hedit
    obtain ⟨method, body, editor, later, happlied⟩ := hedited.applied
    obtain ⟨original, revised, push, hdecode, hpushes, hexpands⟩ :=
      expands_of_applied hindexed happlied
    have hallowed (_ : Member) := allowed_editBody increment.amount
    have hrevised := hedited.revised hallowed hbodies
    have hpushed := hpushes.brought hbrought.framed
    have hextends := hpushes.extending.trans hbrought.extending
    refine ⟨index, method, hselected, happlied.selected, ?_, nofun⟩
    rintro _ ⟨⟩
    rw [happlied.written]
    refine ⟨⟨original, revised, body, _, push,
      happlied.rewritten hdecode hexpands (hedited.agrees hallowed hpushes.extending),
      hbodies.exists_decoded happlied.selected happlied.hasBody hdecode,
      hpushes.pushed, fun place old field ↦ adds_of_expanded hexpands.instructions hpushes⟩,
      fun hfits ↦ ?_, fun hlength ↦ hrevised.fits_of_revised hsettled ?_⟩
    · exact (hrevised.parse_eq_ok_iff hpushed.framed hextends hsettled hfits).trans
        ((forall_congr' fun text ↦ imp_congr_left (hpushed.holds_iff text)).trans hshort)
    · have hmethods := length_methods_le hfile
      omega
  | none =>
    obtain ⟨index, hselected, -, hedited⟩ :=
      editSelected_eq_ok_iff.mp (unedited_of_editUnlessFrozen hfrozen hrun)
    obtain ⟨method, hmethod, hnone⟩ := unassigned_of_unedited hindexed hedited
    exact ⟨index, method, hselected, hmethod, nofun, fun _ ↦ hnone⟩

/-- A class with a method that assigns zero to its only field, which is static. -/
def zeroing : ClassFile where
  minor := 0
  major := 52
  pool := ⟨#[none, some (.utf8 "A"), some (.classRef 1), some (.utf8 "Code"), some (.utf8 "m"),
    some (.utf8 "()V"), some (.utf8 "I"), some (.nameAndType 4 6), some (.fieldRef 2 7)]⟩
  access := 0
  thisClass := 2
  superClass := 0
  interfaces := []
  fields := [⟨8, 4, 6, []⟩]
  methods := [⟨8, 4, 5, [⟨3, .code ⟨1, 0, [0x03, 0xb3, 0, 8, 0xb1], [], []⟩⟩]⟩]
  attributes := []

def zeroingClass : EditableClass :=
  ⟨"A", zeroing, zeroing.bytes, false, false⟩

theorem parse_zeroing : ClassFile.parse zeroingClass.source = .ok zeroing :=
  rfl

theorem parse_zeroingClass : EditableClass.parse "A" zeroing.bytes = .ok zeroingClass := by
  have hparse : ClassFile.parse zeroing.bytes = .ok zeroing := parse_zeroing
  rw [EditableClass.parse, hparse]
  rfl

/-- The pool of the class once a class with a name was added to it. -/
def swollenPool (name : String) : ConstantPool :=
  ⟨(zeroing.pool.slots.toList ++ [some (Constant.utf8 name), some (Constant.classRef 9)]).toArray⟩

def swollenClass (name : String) : EditableClass :=
  { zeroingClass with file := { zeroing with pool := swollenPool name } }

/-- Adds a class to the pool and records nothing. -/
def addClass (name : String) : Member → BodyEdit Id Unit := fun _ ↦ do
  let _ ← BodyEdit.extendPool (ConstantPool.Addition.classRef name).edit

section Swollen

variable {name : String}

theorem classRef_zeroing (hnew : ¬ zeroing.pool.Holds name) :
    (ConstantPool.Addition.classRef name).edit.run.run zeroing.pool =
      (.ok 10, swollenPool name) := by
  have hroom : 9 + 1 ≤ ConstantPool.capacity ∧ 10 + 1 ≤ ConstantPool.capacity := by decide
  have htext : (ConstantPool.addText name).run.run zeroing.pool = (.ok 9, _) :=
    ConstantPool.intern_of_not_mem hnew hroom.1 rfl
  have hmissing : some (Constant.classRef 9) ∉
      zeroing.pool.slots.toList ++ (Constant.utf8 name).slots := by
    simp [zeroing, Constant.slots, Constant.isWide]
  exact edit_bind_eq_ok.mpr ⟨9, _, htext, ConstantPool.intern_of_not_mem hmissing hroom.2 rfl⟩

/-- The pool has the class then, but that does not count as a modification. -/
theorem addClass_zeroing (hnew : ¬ zeroing.pool.Holds name) :
    (ClassEdit.editMethod 0 (addClass name)).run.run zeroingClass =
      (.ok false, swollenClass name) := by
  have heditor : Editor.ofBody zeroing.pool ⟨1, 0, [0x03, 0xb3, 0, 8, 0xb1], [], []⟩ =
      .ok ⟨zeroing.pool, #[⟨0x03, .none, some 0⟩, ⟨0xb3, .constant 8, some 1⟩,
        ⟨0xb1, .none, some 4⟩], ∅, ∅, 0⟩ := rfl
  have hmethod : zeroingClass.file.methods[0]? = some
      ⟨8, 4, 5, [⟨3, .code ⟨1, 0, [0x03, 0xb3, 0, 8, 0xb1], [], []⟩⟩]⟩ := rfl
  have hran (method : Member) : (addClass name method).run.run ⟨zeroing.pool,
      #[⟨0x03, .none, some 0⟩, ⟨0xb3, .constant 8, some 1⟩, ⟨0xb1, .none, some 4⟩], ∅, ∅, 0⟩ =
        (.ok (), _) :=
    edit_bind_eq_ok.mpr ⟨10, _, BodyEdit.extendPool_run (classRef_zeroing hnew), rfl⟩
  exact editMethod_eq_ok_iff.mpr ⟨rfl, .unmodified hmethod rfl heditor (hran _) rfl⟩

theorem weave_swollen (name : String) :
    ∃ bytes after, ((Increment.mk "A" "m" 1 .skip).transformer : Transformer Unit).weave.run.run
      (swollenClass name) = (.ok (some bytes), after) ∧ bytes = after.file.bytes ∧
        after.file.pool = swollenPool name :=
  ⟨_, _, rfl, rfl, rfl⟩

end Swollen

/-- A class was added to the pool by an edit that changed nothing. Instead of assigning zero, the
method that is read again adds one to the field. -/
theorem incremented_of_weave_zeroing :
    ∃ cls after bytes again original revised body new push,
      EditableClass.parse "A" zeroing.bytes = .ok zeroingClass ∧
      (ClassEdit.editMethod 0 (addClass "p/B")).run.run zeroingClass = (.ok false, cls) ∧
      cls.modified = false ∧ cls.frozen = false ∧
      ((Increment.mk "A" "m" 1 .skip).transformer : Transformer Unit).weave.run.run cls =
        (.ok (some bytes), after) ∧
      ClassFile.parse bytes = .ok again ∧
      Rewritten (incremented cls.file.pool push) 0 original revised body new cls.file
        cls.file.widened again ∧
      ∃ member front block back, revised = front ++ (block ++ back) ∧ front.length = 1 ∧
        Adds again.pool 1 member .putstatic block := by
  have hnew : ¬ zeroing.pool.Holds "p/B" := by
    unfold ConstantPool.Holds
    decide
  have hadded : zeroing.pool.extend [.classRef "p/B"] = (swollenClass "p/B").file.pool :=
    congrArg Prod.snd (classRef_zeroing hnew)
  obtain ⟨bytes, after, hrun, -⟩ := weave_swollen "p/B"
  obtain ⟨index, method, hindex, -, hbytes, -⟩ := incremented_of_weave parse_zeroingClass
    (.editMethod 0 (addClass "p/B")) (addClass_zeroing hnew) hadded rfl rfl hrun
  obtain ⟨⟨original, revised, body, new, push, hrewritten, -, -, hadds⟩, hread, hfits⟩ :=
    hbytes bytes rfl
  obtain rfl : 0 = index := Except.ok.inj hindex
  have hlength : 3 * zeroing.bytes.length + maxCodeLength < 4294967296 := by decide
  have hshort : ∀ addition ∈ [ConstantPool.Addition.classRef "p/B"], ∀ text ∈ addition.texts,
      (swollenClass "p/B").file.pool.Holds text →
        (ModifiedUtf8.encode text).length ≤ maxCount := by
    simp only [List.forall_mem_singleton, ConstantPool.Addition.texts]
    exact fun _ ↦ by decide
  obtain ⟨method, hmethod, hbody⟩ := hrewritten.selected
  cases hmethod
  cases hbody
  obtain rfl := Except.ok.inj (show Except.ok _ = Except.ok original from hrewritten.decoded)
  have hassigned : assigned? (swollenPool "p/B") ⟨.putstatic, .constant 8, some 1⟩ = some 8 := rfl
  obtain ⟨member, front, block, back, -, hblock, hfront, hrunning⟩ := hadds 1 _ 8 rfl hassigned
  exact ⟨_, after, bytes, _, _, revised, _, new, push, parse_zeroingClass, addClass_zeroing hnew,
    rfl, rfl, hrun, (hread (hfits hlength)).mpr hshort, hrewritten, member, front, block, back,
    hblock, hfront, hrunning⟩

/-- A name that is too long is written with a length of zero, and what stands behind that is read as
another entry. -/
theorem parse_of_swollenPool {file : ClassFile}
    (hpool : file.pool = swollenPool ConstantPool.longText) :
    ClassFile.parse file.bytes = .error (.invalidTag 97) := by
  have hname : (Constant.utf8 ConstantPool.longText).bytes =
      1 :: 0 :: 0 :: 97 :: List.replicate 65535 97 := by
    have hlength : (97 :: List.replicate 65535 (97 : UInt8)).length = 65536 := by
      rw [List.length_cons, List.length_replicate]
    rw [Constant.bytes, ConstantPool.encode_longText, hlength]
    rfl
  have hbytes : (swollenPool ConstantPool.longText).bytes = bytes16 11 ++
      ((zeroing.pool.slots.toList.filterMap id).flatMap Constant.bytes ++
        ((Constant.utf8 ConstantPool.longText).bytes ++ [7, 0, 9])) := by
    have hcount : ConstantPool.count ⟨(zeroing.pool.slots.toList ++
        [some (Constant.utf8 ConstantPool.longText), some (Constant.classRef 9)]).toArray⟩ = 11 :=
      rfl
    rw [ConstantPool.bytes, swollenPool, hcount, List.filterMap_append, List.flatMap_append]
    rfl
  rw [ClassFile.bytes, hpool, hbytes, hname]
  -- What stands behind the tag is never read.
  generalize List.replicate 65535 (97 : UInt8) = rest
  rfl

/-- A class whose name is too long was added to the pool by an edit that changed nothing. There are
new bytes, but they are not read. -/
theorem not_incremented_longText :
    ∃ cls after bytes, EditableClass.parse "A" zeroing.bytes = .ok zeroingClass ∧
      (ClassEdit.editMethod 0 (addClass ConstantPool.longText)).run.run zeroingClass =
        (.ok false, cls) ∧
      cls.modified = false ∧ cls.frozen = false ∧
      ((Increment.mk "A" "m" 1 .skip).transformer : Transformer Unit).weave.run.run cls =
        (.ok (some bytes), after) ∧
      ClassFile.parse bytes = .error (.invalidTag 97) := by
  have hpool := (settled_of_parse parse_zeroing).pool
  have hnew : ¬ zeroing.pool.Holds ConstantPool.longText := fun hholds ↦
    Nat.not_lt.mpr (hpool.texts _ hholds) ConstantPool.maxCount_lt_longText
  obtain ⟨bytes, after, hrun, rfl, hafter⟩ := weave_swollen ConstantPool.longText
  exact ⟨_, after, _, parse_zeroingClass, addClass_zeroing hnew, rfl, rfl, hrun,
    parse_of_swollenPool hafter⟩

end Method

end Increment

end ClassWeaver
