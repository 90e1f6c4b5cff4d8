import ClassWeaver.Proofs.Code.Editing

/-!
Allocations that frames name.

A frame names an allocation by its offset, and moves along with the body like any other table: it
names the first instruction that stands in for the allocation afterwards. An editor remembers which
allocations were replaced by something else, and forgets none of them when another edit takes the
place of that one (`contains_removed_replay`). Whether the frames of a body can be moved depends on
the allocations that they name and on no others (`Attempt.Heeds`). `apply_of_named` says what comes
of both.
-/

set_option autoImplicit false
set_option relaxedAutoImplicit false

namespace ClassWeaver

open ClassFile Code

/-! ### What frames name -/

namespace ClassFile

/-- The offset of the allocation whose value is not constructed yet. -/
def VerificationType.allocation? : VerificationType → Option Nat
  | .uninitialized offset => some offset.toNat
  | _ => none

/-- The offsets of the allocations that a frame names, in their order. -/
def StackMapFrame.named (frame : StackMapFrame) : List Nat :=
  frame.types.filterMap VerificationType.allocation?

def AttributeContent.named : AttributeContent → List Nat
  | .stackMap frames => frames.flatMap StackMapFrame.named
  | _ => []

/-- The offsets of the allocations that the frames of a body name, in their order. -/
def MethodBody.named (body : MethodBody) : List Nat :=
  body.attributes.flatMap fun attr ↦ attr.content.named

@[simp] theorem StackMapFrame.named_setDelta (delta : UInt16) (frame : StackMapFrame) :
    (frame.setDelta delta).named = frame.named := by
  cases frame <;> rfl

end ClassFile

namespace Code

/-- Annotations of types name no allocation. -/
theorem named_of_unannotated (attributes : List Attribute) :
    ((attributes.filter (!annotatesTypes ·)).flatMap fun attr ↦ attr.content.named) =
      attributes.flatMap fun attr ↦ attr.content.named := by
  induction attributes with
  | nil => rfl
  | cons attr rest ih =>
    rw [List.flatMap_cons, ← ih]
    cases hannotates : annotatesTypes attr with
    | false => rw [List.filter_cons_of_pos (by simp [hannotates]), List.flatMap_cons]
    | true =>
      have hnone : attr.content.named = [] := by
        unfold annotatesTypes at hannotates
        split at hannotates
        · rename_i hcontent
          rw [hcontent]
          rfl
        · cases hannotates
      rw [List.filter_cons_of_neg (by simp [hannotates]), hnone, List.nil_append]

section Moved

variable {goes : Nat → Nat → Prop}

theorem TypeMoved.allocation {before after : VerificationType} (h : TypeMoved goes before after) :
    Option.Rel goes before.allocation? after.allocation? := by
  unfold TypeMoved at h
  split at h
  case h_1 => exact .some h
  case h_2 hfixed =>
    rw [h]
    cases before with
    | uninitialized offset => exact (hfixed offset offset rfl (by rw [h])).elim
    | _ => exact .none

theorem named_of_typesMoved {before after : List VerificationType}
    (h : List.Forall₂ (TypeMoved goes) before after) :
    List.Forall₂ goes (before.filterMap VerificationType.allocation?)
      (after.filterMap VerificationType.allocation?) :=
  List.rel_filterMap (fun _ _ hmoved ↦ hmoved.allocation) h

theorem FrameMoved.named {before after : StackMapFrame} (h : FrameMoved goes before after) :
    List.Forall₂ goes before.named after.named := by
  cases h with
  | sameLocals1 _ _ hstack | sameLocals1Extended _ _ hstack =>
    exact named_of_typesMoved (.cons hstack .nil)
  | append _ _ hlocals => exact named_of_typesMoved hlocals
  | full _ _ hlocals hstack => exact named_of_typesMoved (List.rel_append hlocals hstack)
  | _ => exact .nil

theorem ContentMoved.named {before after : AttributeContent} (h : ContentMoved goes before after) :
    List.Forall₂ goes before.named after.named := by
  unfold ContentMoved at h
  split at h
  case h_4 => exact List.rel_flatMap h.1 fun _ _ hframe ↦ hframe.named
  case h_5 hfixed =>
    rw [h]
    cases before with
    | stackMap frames => exact (hfixed frames frames rfl h).elim
    | _ => exact .nil
  all_goals exact .nil

theorem BodyMoved.named {before after : MethodBody} (h : BodyMoved goes before after) :
    List.Forall₂ goes before.named after.named := by
  rw [MethodBody.named, ← named_of_unannotated]
  exact List.rel_flatMap h.attributes fun _ _ hattr ↦ hattr.content.named

end Moved

/-! ### Frames and the allocations that are gone -/

/-- An attempt that was not stopped has met no allocation that is named and gone, and one that was
stopped by an allocation has met one that is. -/
structure Heeds {α : Type} (removed : Std.TreeSet Nat) (named : List Nat)
    (attempt : Attempt Fault α) : Prop where
  spared : attempt.failure = none → ∀ offset ∈ named, removed.contains offset = false
  blamed : ∀ {offset : Nat}, attempt.failure = some (.uninitializedFrame offset) →
    offset ∈ named ∧ removed.contains offset = true

section Heeds

variable {α β : Type} {removed : Std.TreeSet Nat} {named : List Nat} {attempt : Attempt Fault α}

theorem heeds_update {value : α} {part : Except Fault β} {put : β → α}
    (hok : ∀ {result}, part = .ok result → ∀ offset ∈ named, removed.contains offset = false)
    (herror : ∀ {offset}, part = .error (.uninitializedFrame offset) →
      offset ∈ named ∧ removed.contains offset = true) :
    Heeds removed named (Attempt.update value part put) := by
  cases part with
  | ok result => exact ⟨fun _ ↦ hok rfl, nofun⟩
  | error fault => exact ⟨nofun, fun hfailure ↦ herror (congrArg _ (Option.some.inj hfailure))⟩

/-- Where nothing is named and nothing stops, nothing is to be heeded. -/
theorem heeds_nothing (hnone : attempt.failure = none) : Heeds removed [] attempt where
  spared _ := List.forall_mem_nil _
  blamed hsome := by
    rw [hnone] at hsome
    cases hsome

theorem Heeds.within (h : Heeds removed named attempt) (put : α → β) :
    Heeds removed named (attempt.within put) :=
  ⟨h.spared, h.blamed⟩

/-- What was stopped is given up, and otherwise there is more to do. -/
theorem Heeds.goOn {more : List Nat} {stopped : Fault → Attempt Fault β} {later : Attempt Fault β}
    (h : Heeds removed named attempt) (hlater : Heeds removed more later)
    (hstopped : ∀ fault, (stopped fault).failure = some fault) :
    Heeds removed (named ++ more)
      (match attempt.failure with
        | some fault => stopped fault
        | none => later) := by
  cases hfailure : attempt.failure with
  | none =>
    refine ⟨fun hnone ↦ List.forall_mem_append.mpr ⟨h.spared hfailure, hlater.spared hnone⟩,
      fun hsome ↦ ?_⟩
    obtain ⟨hmem, hremoved⟩ := hlater.blamed hsome
    exact ⟨List.mem_append_right named hmem, hremoved⟩
  | some fault =>
    refine ⟨fun hnone ↦ absurd ((hstopped fault).symm.trans hnone) nofun, fun hsome ↦ ?_⟩
    obtain ⟨hmem, hremoved⟩ := h.blamed (hfailure.trans ((hstopped fault).symm.trans hsome))
    exact ⟨List.mem_append_left more hmem, hremoved⟩

theorem Heeds.andThen {more : List Nat} {next : α → Attempt Fault α}
    (h : Heeds removed named attempt) (hnext : Heeds removed more (next attempt.value)) :
    Heeds removed (named ++ more) (attempt.andThen next) := by
  have hsame : attempt.andThen next = match attempt.failure with
      | some fault => ⟨attempt.value, some fault⟩
      | none => next attempt.value := by
    obtain ⟨value, failure⟩ := attempt
    cases failure <;> rfl
  rw [hsame]
  exact h.goOn hnext fun _ ↦ rfl

theorem heeds_each {change : α → Attempt Fault α} {names : α → List Nat} (items : List α)
    (h : ∀ item, Heeds removed (names item) (change item)) :
    Heeds removed (items.flatMap names) (Attempt.each change items) := by
  induction items with
  | nil => exact heeds_nothing rfl
  | cons item rest ih =>
    have hstep : Attempt.each change (item :: rest) = match (change item).failure with
        | some fault => ⟨(change item).value :: rest, some fault⟩
        | none => (Attempt.each change rest).within ((change item).value :: ·) := by
      rw [Attempt.each]
      cases (change item).failure <;> rfl
    rw [List.flatMap_cons, hstep]
    exact (h item).goOn (ih.within _) fun _ ↦ rfl

/-- Rows that name no allocation. -/
theorem heeds_rows {change : α → Attempt Fault α} {rows : List α}
    (h : ∀ row, Heeds removed [] (change row)) : Heeds removed [] (Attempt.each change rows) := by
  have hall := heeds_each rows h
  rwa [List.flatMap_eq_nil_iff.mpr fun _ _ ↦ rfl] at hall

end Heeds

section Tables

variable {relocation : Relocation} {removed : Std.TreeSet Nat}

theorem map_ne_uninitialized {offset gone : Nat} :
    relocation.map offset ≠ .error (.uninitializedFrame gone) := by
  unfold Relocation.map
  split
  · nofun
  · split <;> nofun

theorem mapWord_ne_uninitialized {offset : UInt16} {gone : Nat} :
    relocation.mapWord offset ≠ .error (.uninitializedFrame gone) := by
  intro h
  rcases except_bind_eq_error h with hmap | ⟨_, _, h⟩
  · exact map_ne_uninitialized hmap
  · cases h

theorem heeds_mapWord {α : Type} (row : α) (offset : UInt16) (put : UInt16 → α) :
    Heeds removed [] (Attempt.update row (relocation.mapWord offset) put) :=
  heeds_update (fun _ ↦ nofun) fun h ↦ absurd h mapWord_ne_uninitialized

theorem heeds_handler (row : ExceptionHandler) : Heeds removed [] (relocation.handler row) := by
  change Heeds removed ([] ++ [] ++ []) _
  refine ((heeds_mapWord _ _ _).andThen ?_).andThen ?_
  · exact heeds_mapWord _ _ _
  · exact heeds_mapWord _ _ _

theorem heeds_localVariable (row : LocalVariable) :
    Heeds removed [] (relocation.localVariable row) := by
  refine heeds_update (fun _ ↦ nofun) fun h ↦ ?_
  rcases except_bind_eq_error h with hstart | ⟨_, _, h⟩
  · exact absurd hstart map_ne_uninitialized
  rcases except_bind_eq_error h with hstop | ⟨_, _, h⟩
  · exact absurd hstop map_ne_uninitialized
  · cases h

theorem heeds_verificationType (type : VerificationType) :
    Heeds removed type.allocation?.toList
      (Attempt.update type (relocation.verificationType removed type) id) := by
  cases type with
  | uninitialized offset =>
    simp only [Relocation.verificationType]
    cases hgone : removed.contains offset.toNat with
    | true =>
      refine heeds_update ?_ fun h ↦ ?_
      · rintro _ ⟨⟩
      · cases h
        exact ⟨List.mem_singleton_self _, hgone⟩
    | false =>
      refine heeds_update (fun _ ↦ List.forall_mem_singleton.mpr hgone) fun h ↦ ?_
      rcases except_bind_eq_error h with hword | ⟨_, _, h⟩
      · exact absurd hword mapWord_ne_uninitialized
      · cases h
  | _ => exact heeds_nothing rfl

theorem heeds_frameTypes (frame : StackMapFrame) :
    Heeds removed frame.named (relocation.frameTypes removed frame) := by
  rw [StackMapFrame.named, List.filterMap_eq_flatMap_toList]
  exact (heeds_each frame.types heeds_verificationType).within _

theorem heeds_frames (previous : Option Relocation.FramePosition) (rows : List StackMapFrame) :
    Heeds removed (rows.flatMap StackMapFrame.named) (relocation.frames removed previous rows) := by
  induction rows generalizing previous with
  | nil => exact heeds_nothing rfl
  | cons frame rest ih =>
    rw [List.flatMap_cons, Relocation.frames]
    dsimp only
    cases hmap : relocation.map (Relocation.oldPosition previous frame.delta) with
    | error fault =>
      refine ⟨nofun, fun hsome ↦ ?_⟩
      obtain rfl := Option.some.inj hsome
      exact absurd hmap map_ne_uninitialized
    | ok new =>
      rw [← frame.named_setDelta (Relocation.newDelta previous new)]
      refine (heeds_frameTypes _).goOn ((ih _).within _) ?_
      exact fun _ ↦ rfl

theorem heeds_attributeContent (content : AttributeContent) :
    Heeds removed content.named (relocation.attributeContent removed content) := by
  cases content with
  | lineNumbers rows => exact (heeds_rows fun row ↦ heeds_mapWord row _ _).within _
  | localVariables rows | localVariableTypes rows => exact (heeds_rows heeds_localVariable).within _
  | stackMap rows => exact (heeds_frames none rows).within _
  | _ => exact heeds_nothing rfl

/-- Behind the layout, only the allocations that the frames name matter. -/
theorem heeds_relocateBody {body : MethodBody} {instructions : List Instruction}
    {laid : Bytes × Relocation} (hlaid : assemble instructions body.code.length = .ok laid)
    (extraStack : UInt16) :
    Heeds removed body.named (relocateBody body instructions removed extraStack) := by
  obtain ⟨code, relocation⟩ := laid
  unfold relocateBody
  rw [hlaid, MethodBody.named, ← named_of_unannotated, ← List.append_nil (List.flatMap _ _)]
  refine Heeds.andThen (?_ : Heeds removed ([] ++ _) _) ?_
  · refine ((heeds_rows heeds_handler).within _).andThen ?_
    refine (heeds_each _ fun attr ↦ ?_).within _
    exact (heeds_attributeContent attr.content).within _
  · exact heeds_nothing rfl

/-! ### Allocations that matter to no frame -/

section Congruence

variable {removed other : Std.TreeSet Nat}

theorem each_congr {ε α : Type} {first second : α → Attempt ε α} {items : List α}
    (h : ∀ item ∈ items, first item = second item) :
    Attempt.each first items = Attempt.each second items := by
  induction items with
  | nil => rfl
  | cons item rest ih =>
    obtain ⟨hitem, hrest⟩ := List.forall_mem_cons.mp h
    rw [Attempt.each, Attempt.each, hitem, ih hrest]

theorem andThen_congr {ε α : Type} {attempt : Attempt ε α} {first second : α → Attempt ε α}
    (h : first attempt.value = second attempt.value) :
    attempt.andThen first = attempt.andThen second := by
  unfold Attempt.andThen
  rw [h]

theorem frameTypes_congr {frame : StackMapFrame}
    (h : ∀ offset ∈ frame.named, removed.contains offset = other.contains offset) :
    relocation.frameTypes removed frame = relocation.frameTypes other frame := by
  have htypes : ∀ type ∈ frame.types,
      relocation.verificationType removed type = relocation.verificationType other type := by
    intro type hmem
    cases type with
    | uninitialized offset =>
      have hsame := h offset.toNat (List.mem_filterMap.mpr ⟨_, hmem, rfl⟩)
      rw [Relocation.verificationType, Relocation.verificationType, hsame]
    | _ => rfl
  refine congrArg (Attempt.within · _) (each_congr fun type hmem ↦ ?_)
  rw [htypes type hmem]

theorem frames_congr {previous : Option Relocation.FramePosition} {rows : List StackMapFrame}
    (h : ∀ offset ∈ rows.flatMap StackMapFrame.named,
      removed.contains offset = other.contains offset) :
    relocation.frames removed previous rows = relocation.frames other previous rows := by
  induction rows generalizing previous with
  | nil => rfl
  | cons frame rest ih =>
    obtain ⟨hframe, hrest⟩ := List.forall_mem_append.mp h
    have hmoved (delta : UInt16) : relocation.frameTypes removed (frame.setDelta delta) =
        relocation.frameTypes other (frame.setDelta delta) :=
      frameTypes_congr (frame.named_setDelta delta ▸ hframe)
    simp only [Relocation.frames, hmoved, ih hrest]

theorem attributeContent_congr {content : AttributeContent}
    (h : ∀ offset ∈ content.named, removed.contains offset = other.contains offset) :
    relocation.attributeContent removed content = relocation.attributeContent other content := by
  cases content with
  | stackMap rows => exact congrArg (Attempt.within · _) (frames_congr h)
  | _ => rfl

theorem relocateBody_congr {body : MethodBody}
    (h : ∀ offset ∈ body.named, removed.contains offset = other.contains offset)
    (instructions : List Instruction) (extraStack : UInt16) :
    relocateBody body instructions removed extraStack =
      relocateBody body instructions other extraStack := by
  unfold relocateBody
  cases assemble instructions body.code.length with
  | error fault => rfl
  | ok laid =>
    refine congrArg (Attempt.andThen · _) (andThen_congr (congrArg (Attempt.within · _) ?_))
    refine each_congr fun attr hmem ↦ congrArg (Attempt.within · _) (attributeContent_congr ?_)
    exact fun offset hoffset ↦
      h offset (List.mem_flatMap.mpr ⟨attr, List.mem_of_mem_filter hmem, hoffset⟩)

end Congruence

end Tables

/-! ### Allocations that were replaced -/

/-- Whether the first of the instructions is an allocation. -/
def Allocates (code : List Instruction) : Prop :=
  code.head?.map Instruction.opcode = some .new

instance (code : List Instruction) : Decidable (Allocates code) :=
  inferInstanceAs (Decidable (_ = _))

/-- Whether an allocation starts at `offset`. -/
def AllocatesAt (instructions : List Instruction) (offset : Nat) : Prop :=
  ∃ instruction ∈ instructions, instruction.origin = some offset ∧ instruction.opcode = .new

/-- The edit puts something in the place of the allocation at `offset` that does not begin with an
allocation. -/
inductive Edit.Removes (original : List Instruction) (offset : Nat) : Edit → Prop
  | replace {index : Nat} {code : List Instruction} {old : Instruction}
      (hold : original[index]? = some old) (hopcode : old.opcode = .new)
      (horigin : old.origin = some offset)
      (hcode : ¬Allocates ((Edit.replace index code).outcome old)) :
    Removes original offset (.replace index code)

/-- Some edit removes the allocation at `offset`, even if another one takes its place. -/
def Removed (original : List Instruction) (history : List Edit) (offset : Nat) : Prop :=
  ∃ edit ∈ history, edit.Removes original offset

theorem removed_record_replace {editor : Editor} {index : Nat} {old : Instruction}
    (code : List Instruction) (hold : editor.instructions[index]? = some old) :
    ((Edit.replace index code).record editor).removed = match old.origin with
      | some origin =>
        if old.opcode = .new ∧ ¬Allocates ((Edit.replace index code).outcome old) then
          editor.removed.insert origin
        else editor.removed
      | none => editor.removed := by
  have hallocates (placed : List Instruction) :
      (placed.head?.map Instruction.opcode == some Opcode.new) = true ↔ Allocates placed := by
    rw [beq_iff_eq, Allocates]
  simp only [Edit.record, Editor.replace, hold, hallocates, Edit.outcome]
  cases old.origin with
  | none => rfl
  | some origin => exact if_congr Iff.rfl rfl rfl

theorem contains_removed_record (edit : Edit) (editor : Editor) (offset : Nat) :
    (edit.record editor).removed.contains offset = true ↔
      editor.removed.contains offset = true ∨
        edit.Removes editor.instructions.toList offset := by
  cases edit with
  | insertBefore index code =>
    have hsame : ((Edit.insertBefore index code).record editor).removed = editor.removed := by
      simp only [Edit.record, Editor.insertBefore]
      split <;> rfl
    rw [hsame]
    refine ⟨.inl, fun h ↦ h.resolve_right ?_⟩
    rintro ⟨⟩
  | replace index code =>
    cases hold : editor.instructions[index]? with
    | none =>
      have hsame : ((Edit.replace index code).record editor).removed = editor.removed := by
        simp only [Edit.record, Editor.replace, hold]
      rw [hsame]
      refine ⟨.inl, fun h ↦ h.resolve_right ?_⟩
      rintro ⟨hother, -, -, -⟩
      rw [Array.getElem?_toList, hold] at hother
      cases hother
    | some old =>
      have hremoves : (Edit.replace index code).Removes editor.instructions.toList offset ↔
          old.opcode = .new ∧ old.origin = some offset ∧
            ¬Allocates ((Edit.replace index code).outcome old) := by
        constructor
        · rintro ⟨hother, hopcode, horigin, hcode⟩
          rw [Array.getElem?_toList, hold] at hother
          cases hother
          exact ⟨hopcode, horigin, hcode⟩
        · rintro ⟨hopcode, horigin, hcode⟩
          exact .replace (by rw [Array.getElem?_toList, hold]) hopcode horigin hcode
      rw [removed_record_replace code hold, hremoves]
      cases old.origin with
      | none => simp
      | some origin =>
        dsimp only
        split
        · rename_i hgone
          rw [Std.TreeSet.contains_insert]
          simp [hgone, or_comm]
        · rename_i hkept
          refine ⟨.inl, fun h ↦ h.resolve_right ?_⟩
          rintro ⟨hopcode, -, hcode⟩
          exact hkept ⟨hopcode, hcode⟩

/-- The editor remembers the allocations that were removed at some time. -/
theorem contains_removed_replay (editor : Editor) (history : List Edit) (offset : Nat) :
    (editor.replay history).removed.contains offset = true ↔
      editor.removed.contains offset = true ∨
        Removed editor.instructions.toList history offset := by
  induction history generalizing editor with
  | nil => exact ⟨.inl, fun h ↦ h.resolve_right fun ⟨_, hmem, _⟩ ↦ absurd hmem List.not_mem_nil⟩
  | cons edit rest ih =>
    have hrest := ih (edit.record editor)
    rw [contains_removed_record, edit.instructions_record, or_assoc] at hrest
    refine hrest.trans (or_congr_right ?_)
    simp only [Removed, List.mem_cons, exists_eq_or_imp]

theorem Editor.removed_of_ofBody {pool : ConstantPool} {body : MethodBody} {editor : Editor}
    (h : Editor.ofBody pool body = .ok editor) : editor.removed = ∅ := by
  obtain ⟨instructions, -, h⟩ := except_bind_eq_ok.mp h
  cases h
  rfl

theorem contains_removed_iff {pool : ConstantPool} {body : MethodBody} {editor : Editor}
    (h : Editor.ofBody pool body = .ok editor) (history : List Edit) (offset : Nat) :
    (editor.replay history).removed.contains offset = true ↔
      Removed editor.instructions.toList history offset := by
  rw [contains_removed_replay, Editor.removed_of_ofBody h]
  exact ⟨fun hgone ↦ hgone.resolve_left (by simp), .inr⟩

/-! ### The last edit of an instruction -/

/-- The edit that decides what stands in the place of instruction `index`. -/
def lastEdit (history : List Edit) (index : Nat) : Option Edit :=
  history.reverse.find? fun edit ↦ edit.index == index

theorem lastEdit_eq_some {history : List Edit} {index : Nat} {edit : Edit}
    (h : lastEdit history index = some edit) : edit ∈ history ∧ edit.index = index :=
  ⟨List.mem_reverse.mp (List.mem_of_find?_eq_some h), by simpa using List.find?_some h⟩

/-- What stands in for an allocation that no edit has removed begins with an allocation, unless
something else was inserted in front of it in the end. -/
theorem allocates_standing_iff {original : List Instruction} {history : List Edit}
    {index offset : Nat} {old : Instruction} (hkept : ¬Removed original history offset)
    (hold : original[index]? = some old) (hopcode : old.opcode = .new)
    (horigin : old.origin = some offset) :
    Allocates (standing history index old) ↔
      ∀ code, lastEdit history index = some (.insertBefore index code) →
        Allocates (code ++ [old]) := by
  cases hlast : lastEdit history index with
  | none =>
    have hstanding : standing history index old = [old] := by
      rw [standing, ← lastEdit, hlast]
    rw [hstanding]
    refine ⟨fun _ code ↦ ?_, fun _ ↦ congrArg some hopcode⟩
    rintro ⟨⟩
  | some edit =>
    have hstanding : standing history index old = edit.outcome old := by
      rw [standing, ← lastEdit, hlast]
    rw [hstanding]
    obtain ⟨hmem, hindex⟩ := lastEdit_eq_some hlast
    cases edit with
    | replace place code =>
      obtain rfl : place = index := hindex
      refine ⟨fun _ other ↦ ?_, fun _ ↦ ?_⟩
      · rintro ⟨⟩
      · by_contra hcode
        exact hkept ⟨_, hmem, .replace hold hopcode horigin hcode⟩
    | insertBefore place code =>
      obtain rfl : place = index := hindex
      constructor
      · rintro hcode _ ⟨⟩
        exact hcode
      · exact fun h ↦ h code rfl

section Overwritten

variable {editor : Editor} {first second : List Edit}

/-- Edits of other instructions change nothing. -/
theorem getElem?_replay_of_none {index : Nat} (history : List Edit)
    (hnone : editor.instructions[index]? = none) :
    (editor.replay history).replacements[index]? = editor.replacements[index]? := by
  induction history generalizing editor with
  | nil => rfl
  | cons edit rest ih =>
    refine (ih (by rw [edit.instructions_record, hnone])).trans ?_
    rw [edit.replacements_record]
    split
    · rename_i old hold
      have hne : edit.index ≠ index := by
        rintro rfl
        cases hnone.symm.trans hold
      rw [Std.TreeMap.getElem?_insert, if_neg (by simpa using hne)]
    · rfl

theorem getElem?_replay_congr (h : ∀ index, lastEdit first index = lastEdit second index)
    (index : Nat) : (editor.replay first).replacements[index]? =
      (editor.replay second).replacements[index]? := by
  cases hold : editor.instructions[index]? with
  | none => rw [getElem?_replay_of_none first hold, getElem?_replay_of_none second hold]
  | some old =>
    have hlast := h index
    unfold lastEdit at hlast
    rw [Editor.getElem?_replay first hold, Editor.getElem?_replay second hold, hlast]

theorem edited_congr (h : ∀ index, lastEdit first index = lastEdit second index) :
    (editor.replay first).edited = (editor.replay second).edited := by
  have hstandIn : (editor.replay first).standIn = (editor.replay second).standIn := by
    funext index old
    rw [Editor.standIn, Editor.standIn, getElem?_replay_congr h]
  rw [Editor.edited, Editor.edited, hstandIn, Editor.instructions_replay,
    Editor.instructions_replay]

theorem isModified_congr (h : ∀ index, lastEdit first index = lastEdit second index) :
    (editor.replay first).isModified = (editor.replay second).isModified := by
  refine congrArg not (Bool.eq_iff_iff.mpr ?_)
  rw [Std.TreeMap.isEmpty_iff_forall_not_mem, Std.TreeMap.isEmpty_iff_forall_not_mem]
  refine forall_congr' fun index ↦ not_congr ?_
  rw [Std.TreeMap.mem_iff_isSome_getElem?, Std.TreeMap.mem_iff_isSome_getElem?,
    getElem?_replay_congr h]

/-- Of edits that another one took the place of, all that matters is which of the allocations that
frames name they have removed. -/
theorem apply_congr {body : MethodBody}
    (h : ∀ index, lastEdit first index = lastEdit second index)
    (hgone : ∀ offset ∈ body.named, Removed editor.instructions.toList first offset ↔
      Removed editor.instructions.toList second offset) :
    (editor.replay first).apply body = (editor.replay second).apply body := by
  have hremoved : ∀ offset ∈ body.named, (editor.replay first).removed.contains offset =
      (editor.replay second).removed.contains offset := by
    intro offset hmem
    rw [Bool.eq_iff_iff, contains_removed_replay, contains_removed_replay, hgone offset hmem]
  rw [Editor.apply, Editor.apply, isModified_congr h, edited_congr h,
    relocateBody_congr hremoved, Editor.extraStack_replay, Editor.extraStack_replay]

end Overwritten

/-! ### Frames of edited bodies -/

/-- The allocation at `old` is named by the place `new` of the first instruction that stands in for
it. That is an allocation unless the last edit inserted something else in front of it. -/
def Revision.Renames (revision : Revision) (old new : Nat) : Prop :=
  ∃ index before after, revision.original[index]? = some before ∧ before.origin = some old ∧
    before.opcode = .new ∧ revision.revised[revision.firstOf index]? = some after ∧
    after.origin = some new ∧
    (after.opcode = .new ↔
      ∀ code, lastEdit revision.history index = some (.insertBefore index code) →
        Allocates (code ++ [before]))

theorem Instruction.writtenOpcode_eq_new_iff (instruction : Instruction) :
    instruction.writtenOpcode = .new ↔ instruction.opcode = .new := by
  unfold writtenOpcode
  split
  · split
    · rename_i hwide
      rw [hwide.1]
      decide
    · rfl
  · rfl

/-- The first stand-in is what the last edit says. -/
theorem opcode_firstOf_iff {editor : Editor} {history : List Edit} {oldLength index : Nat}
    {old after : Instruction} (hblank : editor.replacements = ∅)
    (hold : editor.instructions[index]? = some old)
    (hafter : (editor.revision history oldLength).revised[
      (editor.revision history oldLength).firstOf index]? = some after) :
    after.opcode = .new ↔ Allocates (standing history index old) := by
  obtain ⟨first, rest, hstandIn, -, -⟩ := Editor.standIn_eq_cons history hblank hold
  have hcontent : ((editor.replay history).standIn index old).map Instruction.content =
      (standing history index old).map Instruction.content := content_standIn hblank hold
  rw [hstandIn] at hcontent
  cases hstanding : standing history index old with
  | nil =>
    rw [hstanding] at hcontent
    cases hcontent
  | cons stand others =>
    have hgroup : (editor.revision history oldLength).groups[index]? = some (stand :: others) := by
      rw [Revision.groups, List.getElem?_mapIdx, ← hstanding]
      change (editor.instructions.toList[index]?).map _ = _
      rw [Array.getElem?_toList, hold]
      rfl
    have hplace := congrArg (·[(editor.revision history oldLength).firstOf index]?)
      (content_edited history hblank oldLength)
    rw [List.getElem?_map, List.getElem?_map, Revision.firstOf, getElem?_flatten hgroup] at hplace
    obtain ⟨edited, hedited, hsame⟩ := Option.map_eq_some_iff.mp hplace
    have hlaid : (editor.revision history oldLength).revised[
        (editor.revision history oldLength).firstOf index]? =
          ((layout 0 (editor.replay history).edited)[
            (editor.revision history oldLength).firstOf index]?).map _ :=
      List.getElem?_map ..
    rw [hafter, getElem?_layout, Revision.firstOf, hedited] at hlaid
    cases hlaid
    refine edited.writtenOpcode_eq_new_iff.trans ?_
    rw [(Prod.mk.inj hsame).1]
    exact ⟨congrArg some, Option.some.inj⟩

theorem renames_of_goes {editor : Editor} {history : List Edit} {oldLength old new : Nat}
    (hblank : editor.replacements = ∅)
    (hascending : (origins editor.instructions.toList).Pairwise (· < ·))
    (hbound : ∀ origin ∈ origins editor.instructions.toList, origin < oldLength)
    (hkept : ¬Removed editor.instructions.toList history old)
    (hnamed : AllocatesAt editor.instructions.toList old)
    (hgoes : (editor.revision history oldLength).Goes old new) :
    (editor.revision history oldLength).Renames old new := by
  obtain ⟨allocation, hmem, horigin, hopcode⟩ := hnamed
  cases hgoes with
  | stop => exact absurd (hbound _ (mem_origins.mpr ⟨_, hmem, horigin⟩)) (Nat.lt_irrefl _)
  | @instruction index _ _ before after hbefore hold hafter hnew =>
    obtain ⟨place, hplace⟩ := List.mem_iff_getElem?.mp hmem
    obtain rfl : place = index :=
      StartsAt.unique hascending ⟨_, hplace, horigin⟩ ⟨_, hbefore, hold⟩
    obtain rfl := Option.some.inj (hplace.symm.trans hbefore)
    have hinstruction : editor.instructions[place]? = some allocation := by
      rwa [← Array.getElem?_toList]
    exact ⟨place, allocation, after, hbefore, hold, hopcode, hafter, hnew,
      (opcode_firstOf_iff hblank hinstruction hafter).trans
        (allocates_standing_iff hkept hbefore hopcode hold)⟩

/-- Edits that are applied and have removed no allocation that a frame names leave each frame with
what stands in for the allocations that it named. -/
theorem renames_of_applied {pool : ConstantPool} {body : MethodBody} {editor : Editor}
    {history : List Edit} (hdecode : decode body.code = .ok editor.instructions.toList)
    (heditor : Editor.ofBody pool body = .ok editor)
    (hnamed : ∀ offset ∈ body.named, AllocatesAt editor.instructions.toList offset)
    (hmodified : (editor.replay history).isModified = true)
    (happlied : ((editor.replay history).apply body).failure = none)
    (hkept : ∀ offset ∈ body.named, ¬Removed editor.instructions.toList history offset) :
    List.Forall₂ (editor.revision history body.code.length).Renames body.named
      ((editor.replay history).apply body).value.named := by
  obtain ⟨-, hblank, -⟩ := Editor.ofBody_eq_ok heditor
  obtain ⟨-, htiled⟩ := readFrom_eq_ok (Nat.le_refl _) (decode_eq_ok_iff.mp hdecode).1
  have hascending := htiled.pairwise_origins
  have hbound : ∀ origin ∈ origins editor.instructions.toList, origin < body.code.length :=
    fun origin hmem ↦ by simpa using (htiled.bounds origin hmem).2
  have happly : (editor.replay history).apply body = relocateBody body
      (editor.replay history).edited (editor.replay history).removed
      (editor.replay history).extraStack := if_pos hmodified
  have hgoes : List.Forall₂ (editor.revision history body.code.length).Goes body.named
      ((editor.replay history).apply body).value.named := by
    rw [happly] at happlied ⊢
    obtain ⟨code, relocation, hassemble, -, -, htables⟩ := relocateBody_moved happlied
    obtain ⟨rfl, hsize, -⟩ := assemble_eq_ok hassemble
    exact (htables _ (follows_revision hblank hascending hbound hsize)).named
  refine ((List.forall₂_and_left _ _).mpr ⟨fun offset hmem ↦ hmem, hgoes⟩).imp ?_
  rintro old new ⟨hmem, hgoes⟩
  exact renames_of_goes hblank hascending hbound (hkept old hmem) (hnamed old hmem) hgoes

/-- Once the edited code is laid out, it depends on the allocations that the frames name what comes
of the edits. If they can be applied, then no edit has removed such an allocation, and every frame
names the first instructions that stand in for those it named, in whose place only an insertion can
have put anything but an allocation. If a frame keeps them from being applied, then it names an
allocation that some edit has removed, even if another edit has taken the place of that one. Edits
that were overwritten matter in no other way. -/
theorem apply_of_named {pool : ConstantPool} {body : MethodBody} {editor : Editor}
    {original : List Instruction} {history : List Edit} {laid : Bytes × Relocation}
    (hdecode : decode body.code = .ok original) (heditor : Editor.ofBody pool body = .ok editor)
    (hnamed : ∀ offset ∈ body.named, AllocatesAt original offset)
    (hmodified : (editor.replay history).isModified = true)
    (hlaid : assemble (editor.replay history).edited body.code.length = .ok laid) :
    let outcome := (editor.replay history).apply body
    let revision := editor.revision history body.code.length
    (outcome.failure = none →
      (∀ offset ∈ body.named, ¬Removed original history offset) ∧
      List.Forall₂ revision.Renames body.named outcome.value.named ∧
      ((∀ edit ∈ history, ∃ index code, edit = .replace index code) →
        ∀ offset ∈ outcome.value.named, AllocatesAt revision.revised offset) ∧
      ((∀ edit ∈ history, ∀ instruction ∈ edit.code, instruction.WellFormed ∧
          ∀ target ∈ instruction.operand.targets, target ∈ origins original) →
        decode outcome.value.code = .ok revision.revised)) ∧
    (∀ offset, outcome.failure = some (.uninitializedFrame offset) →
      offset ∈ body.named ∧ Removed original history offset) ∧
    ∀ other, (∀ index, lastEdit other index = lastEdit history index) →
      (∀ offset ∈ body.named,
        Removed original other offset ↔ Removed original history offset) →
      (editor.replay other).apply body = outcome := by
  intro outcome revision
  obtain ⟨hinstructions, -⟩ := Editor.ofBody_eq_ok heditor
  obtain rfl : editor.instructions.toList = original :=
    Except.ok.inj (hinstructions.symm.trans hdecode)
  have hremoved := contains_removed_iff heditor history
  have happly : outcome = relocateBody body (editor.replay history).edited
      (editor.replay history).removed (editor.replay history).extraStack :=
    if_pos hmodified
  have hheeds : Heeds (editor.replay history).removed body.named outcome :=
    happly ▸ heeds_relocateBody hlaid _
  refine ⟨fun happlied ↦ ?_, fun offset hfailure ↦ ?_, fun other hlast hgone ↦
    apply_congr hlast hgone⟩
  · have hkept : ∀ offset ∈ body.named, ¬Removed editor.instructions.toList history offset :=
      fun offset hmem hgone ↦ Bool.false_ne_true
        ((hheeds.spared happlied offset hmem).symm.trans ((hremoved offset).mpr hgone))
    have hrenames : List.Forall₂ revision.Renames body.named outcome.value.named :=
      renames_of_applied hdecode heditor hnamed hmodified happlied hkept
    refine ⟨hkept, hrenames, fun hreplaces offset hmem ↦ ?_, fun hcode ↦ ?_⟩
    · obtain ⟨old, -, index, before, after, -, -, -, hafter, horigin, hopcode⟩ :=
        exists_of_forall₂ hrenames hmem
      refine ⟨after, List.mem_of_getElem? hafter, horigin, hopcode.mpr fun code hlast ↦ ?_⟩
      obtain ⟨_, _, hreplace⟩ := hreplaces _ (lastEdit_eq_some hlast).1
      cases hreplace
    · exact (decode_apply_replay hdecode heditor
        (fun edit hedit instruction hmem ↦ (hcode edit hedit instruction hmem).1)
        (fun edit hedit instruction hmem ↦ (hcode edit hedit instruction hmem).2)
        hmodified happlied).1
  · obtain ⟨hmem, hgone⟩ := hheeds.blamed hfailure
    exact ⟨hmem, (hremoved offset).mp hgone⟩

/-- An allocation, and behind it a frame that names it. -/
def allocating : MethodBody where
  maxStack := 1
  maxLocals := 1
  code := [0xbb, 0, 2, 0x57, 0xb1]
  handlers := []
  attributes := [⟨1, .stackMap [.sameLocals1 3 (.uninitialized 0)]⟩]

def anotherAllocation : Instruction :=
  .withConstant .new 3

def allocatingCode : List Instruction :=
  [⟨.new, .constant 2, some 0⟩, ⟨.pop, .none, some 3⟩, ⟨0xb1, .none, some 4⟩]

/-- Another allocation is put in the place of the one that is named. -/
theorem apply_of_named_allocating :
    ∃ editor, Editor.ofBody .empty allocating = .ok editor ∧ allocating.named = [0] ∧
      ((editor.replay [.replace 0 [anotherAllocation]]).apply allocating).failure = none ∧
      ∀ offset ∈ ((editor.replay [.replace 0 [anotherAllocation]]).apply allocating).value.named,
        AllocatesAt (editor.revision [.replace 0 [anotherAllocation]] 5).revised offset := by
  have hdecode : decode allocating.code = .ok allocatingCode := rfl
  have heditor : Editor.ofBody .empty allocating = .ok _ := rfl
  have hnamed : ∀ offset ∈ allocating.named, AllocatesAt allocatingCode offset :=
    List.forall_mem_singleton.mpr ⟨_, List.mem_cons_self, rfl, rfl⟩
  obtain ⟨happlied, -⟩ := @apply_of_named _ _ _ _ [.replace 0 [anotherAllocation]] _ hdecode
    heditor hnamed rfl rfl
  refine ⟨_, heditor, rfl, rfl, (happlied rfl).2.2.1 ?_⟩
  exact List.forall_mem_singleton.mpr ⟨_, _, rfl⟩

/-- The allocation is replaced by a `nop` and then by another allocation, or by code that does not
begin with one: either way the frame is refused. A `nop` is inserted in front of it: the frame names
the `nop`. -/
theorem not_named_overwritten :
    ∃ editor, Editor.ofBody .empty allocating = .ok editor ∧
      decode allocating.code = .ok allocatingCode ∧
      (∀ offset ∈ allocating.named, AllocatesAt allocatingCode offset) ∧
      (∀ index, lastEdit [.replace 0 [.plain .nop], .replace 0 [anotherAllocation]] index =
        lastEdit [.replace 0 [anotherAllocation]] index) ∧
      ((editor.replay [.replace 0 [.plain .nop], .replace 0 [anotherAllocation]]).apply
        allocating).failure = some (.uninitializedFrame 0) ∧
      ((editor.replay [.replace 0 [anotherAllocation]]).apply allocating).failure = none ∧
      ((editor.replay [.replace 0 [.plain .nop, anotherAllocation]]).apply
        allocating).failure = some (.uninitializedFrame 0) ∧
      ((editor.replay [.insertBefore 0 [.plain .nop]]).apply allocating).failure = none ∧
      ((editor.replay [.insertBefore 0 [.plain .nop]]).apply allocating).value.named = [0] ∧
      ∃ revised, decode ((editor.replay [.insertBefore 0 [.plain .nop]]).apply
        allocating).value.code = .ok revised ∧ ¬AllocatesAt revised 0 := by
  refine ⟨_, rfl, rfl, List.forall_mem_singleton.mpr ⟨_, List.mem_cons_self, rfl, rfl⟩,
    fun index ↦ ?_, rfl, rfl, rfl, rfl, rfl, _, rfl, ?_⟩
  · cases index <;> rfl
  · rintro ⟨instruction, hmem, horigin, hopcode⟩
    revert instruction
    decide

end Code

end ClassWeaver
