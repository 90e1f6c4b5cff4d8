import ClassWeaver.Proofs.Code.Editing
import Mathlib.Data.Nat.PSub

/-!
The arithmetic of moving a body.

Tables hold offsets in two bytes, and the length of a range and the delta of a frame are
differences of offsets. A checked run makes the same changes as a run, but it has no value at all
where a difference would be negative or two bytes would not hold a result. Relocations keep the
order of boundaries and lead into a body that is not too large; hence a checked run always has a
value, that of the run, however little sense the tables make (`exactMove_of_decode`).

Assembling is left as it is, since it tests a distance before it tells it in two bytes. Sums of
offsets are taken without a bound: four bytes hold those of any table whose frames two bytes can
count (`lt_of_mem_framePositions`).
-/

set_option autoImplicit false
set_option relaxedAutoImplicit false

namespace ClassWeaver

/-! ### Checked attempts -/

namespace Attempt

variable {ε α : Type}

/-- Goes on with a checked change unless the attempt was stopped. -/
def checkedThen (attempt : Attempt ε α) (next : α → Option (Attempt ε α)) :
    Option (Attempt ε α) :=
  match attempt.failure with
  | some _ => some attempt
  | none => next attempt.value

/-- Makes a checked change of the items of a list from the first to the last. -/
def checkedEach (change : α → Option (Attempt ε α)) : List α → Option (Attempt ε (List α))
  | [] => some (done [])
  | item :: rest => do
    let changed ← change item
    match changed.failure with
    | some failure => return ⟨changed.value :: rest, some failure⟩
    | none => return (← checkedEach change rest).within (changed.value :: ·)

@[simp] theorem checkedThen_some (attempt : Attempt ε α) (next : α → Attempt ε α) :
    attempt.checkedThen (fun value ↦ some (next value)) = some (attempt.andThen next) := by
  unfold checkedThen andThen
  cases attempt.failure <;> rfl

@[simp] theorem checkedEach_some (change : α → Attempt ε α) (items : List α) :
    checkedEach (fun item ↦ some (change item)) items = some (each change items) := by
  induction items with
  | nil => rfl
  | cons item rest ih =>
    simp only [checkedEach, each, ih, Option.bind_eq_bind, Option.bind_some, Option.pure_def]
    cases (change item).failure <;> rfl

end Attempt

namespace Code

open ClassFile

/-! ### Checked runs -/

/-- A number in two bytes, if it fits. -/
def checkedWord (number : Nat) : Option UInt16 :=
  if number < UInt16.size then some (UInt16.ofNat number) else none

namespace Relocation

variable (relocation : Relocation) (removed : Std.TreeSet Nat)

def checkedMapWord (offset : UInt16) : Option (Except Fault UInt16) :=
  match relocation.map offset.toNat with
  | .ok new => do return .ok (← checkedWord new)
  | .error fault => return .error fault

def checkedHandler (row : ExceptionHandler) : Option (Attempt Fault ExceptionHandler) := do
  let started :=
    Attempt.update row (← relocation.checkedMapWord row.start) fun start ↦ { row with start }
  let stopped ← started.checkedThen fun row ↦ do
    return Attempt.update row (← relocation.checkedMapWord row.stop) fun stop ↦ { row with stop }
  stopped.checkedThen fun row ↦ do
    return Attempt.update row (← relocation.checkedMapWord row.handler) fun handler ↦
      { row with handler }

def checkedLineNumber (row : LineNumber) : Option (Attempt Fault LineNumber) := do
  return Attempt.update row (← relocation.checkedMapWord row.start) fun start ↦ { row with start }

/-- The length of a range is the difference of its ends. -/
def checkedLocalVariable (row : LocalVariable) : Option (Attempt Fault LocalVariable) :=
  let range : Except Fault (Nat × Nat) := do
    let start ← relocation.map row.start.toNat
    let stop ← relocation.map (row.start.toNat + row.length.toNat)
    return (start, stop)
  match range with
  | .ok (start, stop) => do
    let length ← Nat.psub stop start
    return .done { row with start := ← checkedWord start, length := ← checkedWord length }
  | .error fault => return ⟨row, some fault⟩

def checkedType : VerificationType → Option (Except Fault VerificationType)
  | .uninitialized offset =>
    if removed.contains offset.toNat then return .error (.uninitializedFrame offset.toNat)
    else do return (← relocation.checkedMapWord offset).map .uninitialized
  | type => return .ok type

/-- Deltas count from the byte behind the frame before. -/
def checkedDelta (previous : Option FramePosition) (position : Nat) : Option UInt16 :=
  match previous with
  | none => checkedWord position
  | some previous => do
    let distance ← Nat.psub position previous.new
    checkedWord (← Nat.psub distance 1)

def checkedFrameTypes (frame : StackMapFrame) : Option (Attempt Fault StackMapFrame) := do
  let types ← Attempt.checkedEach
    (fun type ↦ do return Attempt.update type (← relocation.checkedType removed type) id)
    frame.types
  return types.within frame.setTypes

def checkedFrames : (previous : Option FramePosition) → List StackMapFrame →
    Option (Attempt Fault (List StackMapFrame))
  | _, [] => some (.done [])
  | previous, frame :: rest =>
    let old := oldPosition previous frame.delta
    match relocation.map old with
    | .error fault => return ⟨frame :: rest, some fault⟩
    | .ok new => do
      let delta ← checkedDelta previous new
      let moved ← relocation.checkedFrameTypes removed (frame.setDelta delta)
      match moved.failure with
      | some fault => return ⟨moved.value :: rest, some fault⟩
      | none => return (← checkedFrames (some ⟨old, new⟩) rest).within (moved.value :: ·)

def checkedContent : AttributeContent → Option (Attempt Fault AttributeContent)
  | .lineNumbers rows => do
    return (← Attempt.checkedEach relocation.checkedLineNumber rows).within .lineNumbers
  | .localVariables rows => do
    return (← Attempt.checkedEach relocation.checkedLocalVariable rows).within .localVariables
  | .localVariableTypes rows => do
    return (← Attempt.checkedEach relocation.checkedLocalVariable rows).within .localVariableTypes
  | .stackMap rows => do
    return (← relocation.checkedFrames removed none rows).within .stackMap
  | content => return .done content

def checkedAttribute (attr : Attribute) : Option (Attempt Fault Attribute) := do
  return (← relocation.checkedContent removed attr.content).within
    fun content ↦ { attr with content }

end Relocation

/-- `relocateBody` with checked arithmetic. -/
def checkedRelocateBody (body : MethodBody) (instructions : List Instruction)
    (removed : Std.TreeSet Nat) (extraStack : UInt16) : Option (Attempt Fault MethodBody) :=
  match assemble instructions body.code.length with
  | .error fault => return ⟨body, some fault⟩
  | .ok (code, relocation) => do
    let handlers ← Attempt.checkedEach relocation.checkedHandler body.handlers
    let handled := handlers.within fun handlers ↦ { body with handlers }
    let moved ← handled.checkedThen fun body ↦ do
      let attributes ← Attempt.checkedEach (relocation.checkedAttribute removed)
        (body.attributes.filter (!annotatesTypes ·))
      return attributes.within fun attributes ↦ { body with attributes }
    return moved.andThen fun body ↦
      .done { body with code, maxStack := addStack body.maxStack extraStack }

/-- `Editor.apply` with checked arithmetic. -/
def Editor.checkedApply (editor : Editor) (body : MethodBody) :
    Option (Attempt Fault MethodBody) :=
  if editor.isModified then
    checkedRelocateBody body editor.edited editor.removed editor.extraStack
  else some (.done body)

/-! ### Checked runs have a value -/

theorem checkedWord_of_le {number : Nat} (h : number ≤ maxCodeLength) :
    checkedWord number = some (UInt16.ofNat number) :=
  if_pos (Nat.lt_succ_of_le h)

section Follows

variable {relocation : Relocation} {goes : Nat → Nat → Prop}
  (hfollows : relocation.Follows goes) (removed : Std.TreeSet Nat)

include hfollows

theorem checkedMapWord_eq (offset : UInt16) :
    relocation.checkedMapWord offset = some (relocation.mapWord offset) := by
  unfold Relocation.checkedMapWord Relocation.mapWord
  cases hnew : relocation.map offset.toNat with
  | error fault => rfl
  | ok new =>
    simp only [checkedWord_of_le (hfollows.le hnew)]
    rfl

theorem checkedHandler_eq (row : ExceptionHandler) :
    relocation.checkedHandler row = some (relocation.handler row) := by
  simp only [Relocation.checkedHandler, checkedMapWord_eq hfollows, Option.bind_eq_bind,
    Option.bind_some, Option.pure_def, Attempt.checkedThen_some]
  rfl

theorem checkedLineNumber_eq (row : LineNumber) :
    relocation.checkedLineNumber row = some (relocation.lineNumber row) := by
  rw [Relocation.checkedLineNumber, checkedMapWord_eq hfollows]
  rfl

theorem checkedLocalVariable_eq (row : LocalVariable) :
    relocation.checkedLocalVariable row = some (relocation.localVariable row) := by
  unfold Relocation.checkedLocalVariable Relocation.localVariable
  cases hstart : relocation.map row.start.toNat with
  | error fault => rfl
  | ok start =>
    cases hstop : relocation.map (row.start.toNat + row.length.toNat) with
    | error fault => rfl
    | ok stop =>
      have horder := hfollows.le_of_map_add hstart hstop
      have hlength := Nat.le_trans (Nat.sub_le stop start) (hfollows.le hstop)
      change (Nat.psub stop start >>= fun length ↦ _) = _
      rw [Nat.psub_eq_sub horder, Option.bind_eq_bind, Option.bind_some,
        checkedWord_of_le (hfollows.le hstart), checkedWord_of_le hlength]
      rfl

theorem checkedType_eq (type : VerificationType) :
    relocation.checkedType removed type = some (relocation.verificationType removed type) := by
  cases type with
  | uninitialized offset =>
    simp only [Relocation.checkedType, Relocation.verificationType, checkedMapWord_eq hfollows]
    split
    · rfl
    · cases relocation.mapWord offset <;> rfl
  | _ => rfl

theorem checkedFrameTypes_eq (frame : StackMapFrame) :
    relocation.checkedFrameTypes removed frame = some (relocation.frameTypes removed frame) := by
  simp only [Relocation.checkedFrameTypes, checkedType_eq hfollows removed, Option.bind_eq_bind,
    Option.bind_some, Option.pure_def, Attempt.checkedEach_some]
  rfl

/-- A frame stands behind the one before it in the new code too. -/
theorem checkedDelta_eq {previous : Option Relocation.FramePosition} {delta : UInt16} {new : Nat}
    (hprevious : ∀ position ∈ previous, relocation.map position.old = .ok position.new)
    (h : relocation.map (Relocation.oldPosition previous delta) = .ok new) :
    Relocation.checkedDelta previous new = some (Relocation.newDelta previous new) := by
  have hle := hfollows.le h
  cases previous with
  | none => exact checkedWord_of_le hle
  | some previous =>
    have hlt := hfollows.lt (hprevious previous rfl) h
      (show previous.old < previous.old + delta.toNat + 1 by omega)
    simp only [Relocation.checkedDelta, Relocation.newDelta, Option.bind_eq_bind,
      Nat.psub_eq_sub (Nat.le_of_lt hlt), Option.bind_some,
      Nat.psub_eq_sub (Nat.sub_pos_of_lt hlt)]
    exact checkedWord_of_le (by omega)

theorem checkedFrames_eq (previous : Option Relocation.FramePosition) (rows : List StackMapFrame)
    (hprevious : ∀ position ∈ previous, relocation.map position.old = .ok position.new) :
    relocation.checkedFrames removed previous rows =
      some (relocation.frames removed previous rows) := by
  induction rows generalizing previous with
  | nil => rfl
  | cons frame rest ih =>
    unfold Relocation.checkedFrames Relocation.frames
    cases hmap : relocation.map (Relocation.oldPosition previous frame.delta) with
    | error fault =>
      simp only [hmap]
      rfl
    | ok new =>
      have hrest := ih (some ⟨Relocation.oldPosition previous frame.delta, new⟩)
        (by simpa using hmap)
      simp only [hmap, checkedDelta_eq hfollows hprevious hmap,
        checkedFrameTypes_eq hfollows removed, hrest, Option.bind_eq_bind, Option.bind_some,
        Option.pure_def]
      cases (relocation.frameTypes removed
        (frame.setDelta (Relocation.newDelta previous new))).failure <;> rfl

theorem checkedContent_eq (content : AttributeContent) :
    relocation.checkedContent removed content =
      some (relocation.attributeContent removed content) := by
  have hvariable := funext (checkedLocalVariable_eq hfollows)
  have hline := funext (checkedLineNumber_eq hfollows)
  cases content with
  | stackMap rows =>
    simp only [Relocation.checkedContent, checkedFrames_eq hfollows removed none rows (by simp)]
    rfl
  | lineNumbers _ | localVariables _ | localVariableTypes _ =>
    simp only [Relocation.checkedContent, hline, hvariable, Attempt.checkedEach_some]
    rfl
  | _ => rfl

theorem checkedAttribute_eq (attr : Attribute) :
    relocation.checkedAttribute removed attr =
      some ((relocation.attributeContent removed attr.content).within
        fun content ↦ { attr with content }) := by
  rw [Relocation.checkedAttribute, checkedContent_eq hfollows removed]
  rfl

end Follows

/-- When the origins of what is assembled ascend, the checks of a body pass. -/
theorem checkedRelocateBody_eq {body : MethodBody} {instructions : List Instruction}
    (removed : Std.TreeSet Nat) (extraStack : UInt16)
    (hascending : (origins instructions).Pairwise (· < ·))
    (hbound : ∀ origin ∈ origins instructions, origin < body.code.length) :
    checkedRelocateBody body instructions removed extraStack =
      some (relocateBody body instructions removed extraStack) := by
  unfold checkedRelocateBody relocateBody
  cases hassemble : assemble instructions body.code.length with
  | error fault => rfl
  | ok result =>
    obtain ⟨code, relocation⟩ := result
    have hfollows := follows_assemble hascending hbound hassemble
    have hhandler := funext (checkedHandler_eq hfollows)
    have hattribute := funext (checkedAttribute_eq hfollows removed)
    simp only [hhandler, hattribute, Attempt.checkedEach_some, Option.bind_eq_bind,
      Option.bind_some, Option.pure_def, Attempt.checkedThen_some]

/-! ### Boundaries -/

/-- An offset at which an instruction of a body starts, or the end of its code. -/
def Boundary (body : MethodBody) (offset : Nat) : Prop :=
  offset = body.code.length ∨
    ∃ original, decode body.code = .ok original ∧ offset ∈ origins original

/-- Whatever the edits of a body are, none of its boundaries is lost. -/
theorem exists_map_of_boundary {pool : ConstantPool} {body : MethodBody} {editor : Editor}
    {history : List Edit} {code : Bytes} {relocation : Relocation} {offset : Nat}
    (heditor : Editor.ofBody pool body = .ok editor)
    (hassemble : assemble (editor.replay history).edited body.code.length = .ok (code, relocation))
    (h : Boundary body offset) : ∃ new, relocation.map offset = .ok new := by
  obtain ⟨rfl, -, -⟩ := assemble_eq_ok hassemble
  rcases h with rfl | ⟨original, hdecode, hmem⟩
  · exact ⟨_, if_pos rfl⟩
  · obtain ⟨hinstructions, hblank, -⟩ := Editor.ofBody_eq_ok heditor
    obtain rfl := Except.ok.inj (hinstructions.symm.trans hdecode)
    have hinside := (ascending_ofBody heditor).2 offset hmem
    rw [← origins_edited history hblank] at hmem
    obtain ⟨place, -, hmap⟩ := Relocation.exists_map_ofLayout (Nat.ne_of_lt hinside) hmem
    exact ⟨place.1, hmap⟩

/-- A frame stands at most 65536 bytes behind the one before it. -/
theorem lt_of_mem_framePositions (start : Nat) {rows : List StackMapFrame}
    {previous : Option Nat} {position : Nat} (hprevious : ∀ before ∈ previous, before < start)
    (h : position ∈ framePositions previous rows) : position < start + 65536 * rows.length := by
  induction rows generalizing previous start with
  | nil => cases h
  | cons frame rest ih =>
    have hdelta := frame.delta.toNat_lt
    have hfirst : framePosition previous frame.delta < start + 65536 := by
      cases previous with
      | none =>
        rw [framePosition]
        omega
      | some before =>
        have hbefore := hprevious before rfl
        rw [framePosition]
        omega
    rw [List.length_cons]
    rcases List.mem_cons.mp h with rfl | hrest
    · exact Nat.lt_of_lt_of_le hfirst (by omega)
    · have hnext := ih (start + 65536) (by rintro before ⟨⟩; exact hfirst) hrest
      omega

/-! ### Edited bodies -/

/-- Edits move a body by exact arithmetic. -/
structure ExactMove (editor : Editor) (body : MethodBody) : Prop where
  /-- Boundaries go to offsets that two bytes hold, in their order. -/
  ordered : ∀ {code : Bytes} {relocation : Relocation},
    assemble editor.edited body.code.length = .ok (code, relocation) →
      ∀ {first second : Nat}, Boundary body first → Boundary body second → first < second →
        ∃ newFirst newSecond, relocation.map first = .ok newFirst ∧
          relocation.map second = .ok newSecond ∧ newFirst < newSecond ∧
            newSecond ≤ maxCodeLength
  /-- With or without a failure, the changes are those of a checked run. -/
  checked : editor.checkedApply body = some (editor.apply body)
  /-- The offsets of frames are sums. Four bytes hold them all unless there are more frames than
  two bytes can count. -/
  sums : ∀ attr ∈ body.attributes, ∀ rows, attr.content = .stackMap rows →
    rows.length ≤ 65536 → ∀ position ∈ framePositions none rows, position < 4294967296

/-- Whatever is done to a body that can be read, and whatever its tables say, it is moved by exact
arithmetic. -/
theorem exactMove_of_decode {body : MethodBody} {original : List Instruction}
    (hdecode : decode body.code = .ok original) (pool : ConstantPool) :
    ∃ editor, Editor.ofBody pool body = .ok editor ∧
      ∀ (history : List Edit) (grown : ConstantPool) (extraStack : UInt16),
        ExactMove { editor.replay history with pool := grown, extraStack } body := by
  have hread : ∃ editor, Editor.ofBody pool body = .ok editor := by
    rw [Editor.ofBody, hdecode]
    exact ⟨_, rfl⟩
  obtain ⟨editor, heditor⟩ := hread
  refine ⟨editor, heditor, fun history grown extraStack ↦ ?_⟩
  obtain ⟨hascending, hbound⟩ := ascending_edited heditor history
  refine ⟨?ordered, ?checked, ?sums⟩
  case ordered =>
    intro code relocation hassemble first second hfirst hsecond hlt
    have hfollows := follows_assemble hascending hbound hassemble
    obtain ⟨newFirst, hnewFirst⟩ := exists_map_of_boundary heditor hassemble hfirst
    obtain ⟨newSecond, hnewSecond⟩ := exists_map_of_boundary heditor hassemble hsecond
    exact ⟨newFirst, newSecond, hnewFirst, hnewSecond, hfollows.lt hnewFirst hnewSecond hlt,
      hfollows.le hnewSecond⟩
  case checked =>
    unfold Editor.checkedApply Editor.apply
    split
    · exact checkedRelocateBody_eq _ _ hascending hbound
    · rfl
  case sums =>
    intro attr _ rows _ hcount position hmem
    have hlast := lt_of_mem_framePositions 0 (by simp) hmem
    omega

/-- A switch in front of a `return`. The handler guards a range that ends in front of its start, and
the last frame stands far behind the code. -/
def tornTables : MethodBody :=
  ⟨1, 1, [0xaa, 0, 0, 0, 0, 0, 0, 20, 0, 0, 0, 0, 0, 0, 0, 0, 0, 0, 0, 20, 0xb1],
    [⟨20, 0, 21, 0⟩],
    [⟨7, .localVariables [⟨20, 1, 8, 9, 0⟩]⟩, ⟨10, .stackMap [.same 20, .same 0, .same 65535]⟩]⟩

/-- With a `pop` in the place of the switch, the change fails at the last frame. -/
theorem exactMove_of_decode_torn :
    ∃ editor, Editor.ofBody .empty tornTables = .ok editor ∧
      ExactMove { editor.replay [.replace 0 [.plain .pop]] with pool := .empty, extraStack := 2 }
        tornTables ∧
      ((editor.replay [.replace 0 [.plain .pop]]).apply tornTables).failure =
        some (.danglingOffset 65557) := by
  obtain ⟨editor, heditor, hexact⟩ :=
    exactMove_of_decode (show decode tornTables.code = .ok _ from rfl) .empty
  refine ⟨editor, heditor, hexact _ _ _, ?_⟩
  cases heditor
  rfl

end Code

end ClassWeaver
