import ClassWeaver.Code.Relocate
import ClassWeaver.Proofs.Attempt
import ClassWeaver.Proofs.Code.Relocation

/-!
The tables of a body after it has moved.

Where offsets go is a relation between old and new ones. A table has moved along it when its rows
are the same rows in the same order, each naming the offsets that its own have gone to: for the
range of a local variable these are its two ends, and for a stack map frame the offset that the
deltas up to it lead to. `relocateBody_moved` says that a relocation that follows the relation moves
every table along it.
-/

set_option autoImplicit false
set_option relaxedAutoImplicit false

namespace ClassWeaver.Code

open ClassFile Relocation

/-! ### Tables that have moved -/

section Moved

variable (goes : Nat → Nat → Prop)

structure HandlerMoved (before after : ExceptionHandler) : Prop where
  start : goes before.start.toNat after.start.toNat
  stop : goes before.stop.toNat after.stop.toNat
  handler : goes before.handler.toNat after.handler.toNat
  catchType : after.catchType = before.catchType

structure LineMoved (before after : LineNumber) : Prop where
  start : goes before.start.toNat after.start.toNat
  line : after.line = before.line

structure VariableMoved (before after : LocalVariable) : Prop where
  start : goes before.start.toNat after.start.toNat
  stop : goes (before.start.toNat + before.length.toNat) (after.start.toNat + after.length.toNat)
  name : after.name = before.name
  type : after.type = before.type
  index : after.index = before.index

/-- An allocation is named by the offset it has gone to; other types stay. -/
def TypeMoved : VerificationType → VerificationType → Prop
  | .uninitialized before, .uninitialized after => goes before.toNat after.toNat
  | before, after => after = before

/-- A frame of the same kind with the same types, whatever the deltas are. -/
inductive FrameMoved : StackMapFrame → StackMapFrame → Prop
  | same (delta newDelta : UInt16) : FrameMoved (.same delta) (.same newDelta)
  | sameLocals1 (delta newDelta : UInt16) {before after : VerificationType}
      (hstack : TypeMoved goes before after) :
      FrameMoved (.sameLocals1 delta before) (.sameLocals1 newDelta after)
  | sameLocals1Extended (delta newDelta : UInt16) {before after : VerificationType}
      (hstack : TypeMoved goes before after) :
      FrameMoved (.sameLocals1Extended delta before) (.sameLocals1Extended newDelta after)
  | chop (delta newDelta : UInt16) (count : UInt8) :
      FrameMoved (.chop delta count) (.chop newDelta count)
  | sameExtended (delta newDelta : UInt16) :
      FrameMoved (.sameExtended delta) (.sameExtended newDelta)
  | append (delta newDelta : UInt16) {before after : List VerificationType}
      (hlocals : List.Forall₂ (TypeMoved goes) before after) :
      FrameMoved (.append delta before) (.append newDelta after)
  | full (delta newDelta : UInt16) {before after stackBefore stackAfter : List VerificationType}
      (hlocals : List.Forall₂ (TypeMoved goes) before after)
      (hstack : List.Forall₂ (TypeMoved goes) stackBefore stackAfter) :
      FrameMoved (.full delta before stackBefore) (.full newDelta after stackAfter)

/-- The offset that a delta leads to from the offset of the frame before. -/
def framePosition (previous : Option Nat) (delta : UInt16) : Nat :=
  match previous with
  | none => delta.toNat
  | some previous => previous + delta.toNat + 1

/-- The offsets of frames, one counted from the other. -/
def framePositions : (previous : Option Nat) → List StackMapFrame → List Nat
  | _, [] => []
  | previous, frame :: rest =>
    let position := framePosition previous frame.delta
    position :: framePositions (some position) rest

/-- Tables whose rows have moved; any other content is the same. -/
def ContentMoved : AttributeContent → AttributeContent → Prop
  | .lineNumbers before, .lineNumbers after => List.Forall₂ (LineMoved goes) before after
  | .localVariables before, .localVariables after =>
    List.Forall₂ (VariableMoved goes) before after
  | .localVariableTypes before, .localVariableTypes after =>
    List.Forall₂ (VariableMoved goes) before after
  | .stackMap before, .stackMap after =>
    List.Forall₂ (FrameMoved goes) before after ∧
      List.Forall₂ goes (framePositions none before) (framePositions none after)
  | before, after => after = before

structure AttributeMoved (before after : Attribute) : Prop where
  name : after.name = before.name
  content : ContentMoved goes before.content after.content

/-- All tables of a body have moved; annotations of types inside the code are gone. -/
structure BodyMoved (before after : MethodBody) : Prop where
  handlers : List.Forall₂ (HandlerMoved goes) before.handlers after.handlers
  attributes : List.Forall₂ (AttributeMoved goes)
    (before.attributes.filter (!annotatesTypes ·)) after.attributes
  maxLocals : after.maxLocals = before.maxLocals

end Moved

/-! ### Moving them -/

/-- The relocation takes offsets where they go, in their order and into a body that is not too
large. -/
structure Relocation.Follows (relocation : Relocation) (goes : Nat → Nat → Prop) : Prop where
  goes : ∀ {old new}, relocation.map old = .ok new → goes old new
  le : ∀ {old new}, relocation.map old = .ok new → new ≤ maxCodeLength
  lt : ∀ {old new later newLater}, relocation.map old = .ok new →
    relocation.map later = .ok newLater → old < later → new < newLater

/-- Ascending origins are taken to where they go in their order. -/
theorem Relocation.follows_ofLayout {instructions : List Instruction} {oldLength : Nat}
    {goes : Nat → Nat → Prop} (hascending : (origins instructions).Pairwise (· < ·))
    (hbound : ∀ origin ∈ origins instructions, origin < oldLength)
    (hsize : layoutEnd 0 instructions ≤ maxCodeLength)
    (hgoes : ∀ {old new}, (ofLayout oldLength instructions).map old = .ok new → goes old new) :
    (ofLayout oldLength instructions).Follows goes where
  goes := hgoes
  le hmap := Nat.le_trans (map_ofLayout_le hmap) hsize
  lt := map_ofLayout_lt hascending hbound

section Follows

variable {relocation : Relocation} {goes : Nat → Nat → Prop}

/-- Two bytes hold any offset of a body. -/
theorem toNat_ofNat_of_le {offset : Nat} (h : offset ≤ maxCodeLength) :
    (UInt16.ofNat offset).toNat = offset :=
  UInt16.toNat_ofNat_of_lt' (Nat.lt_succ_of_le h)

theorem Relocation.Follows.mapWord_eq_ok (hfollows : relocation.Follows goes) {offset word : UInt16}
    (h : relocation.mapWord offset = .ok word) :
    relocation.map offset.toNat = .ok word.toNat := by
  obtain ⟨new, hnew, h⟩ := except_bind_eq_ok.mp h
  cases h
  rw [hnew, toNat_ofNat_of_le (hfollows.le hnew)]

theorem Relocation.Follows.mapWord (hfollows : relocation.Follows goes) {offset word : UInt16}
    (h : relocation.mapWord offset = .ok word) : goes offset.toNat word.toNat :=
  hfollows.goes (hfollows.mapWord_eq_ok h)

/-- The end of a range is not in front of its start. -/
theorem Relocation.Follows.le_of_map_add (hfollows : relocation.Follows goes)
    {start length newStart newStop : Nat} (hstart : relocation.map start = .ok newStart)
    (hstop : relocation.map (start + length) = .ok newStop) : newStart ≤ newStop := by
  rcases Nat.eq_zero_or_pos length with rfl | hpos
  · rw [Nat.add_zero, hstart] at hstop
    cases hstop
    exact Nat.le_refl _
  · exact Nat.le_of_lt (hfollows.lt hstart hstop (by omega))

theorem handler_moved (hfollows : relocation.Follows goes) {row : ExceptionHandler}
    (h : (relocation.handler row).failure = none) :
    HandlerMoved goes row (relocation.handler row).value := by
  unfold Relocation.handler at h ⊢
  rw [Attempt.andThen_assoc] at h ⊢
  obtain ⟨start, hstart, hrest⟩ := Attempt.update_andThen_failure_eq_none h
  rw [hrest] at h ⊢
  obtain ⟨stop, hstop, hrest⟩ := Attempt.update_andThen_failure_eq_none h
  rw [hrest] at h ⊢
  obtain ⟨handler, hhandler, hrow⟩ := Attempt.update_failure_eq_none h
  rw [hrow]
  exact ⟨hfollows.mapWord hstart, hfollows.mapWord hstop, hfollows.mapWord hhandler, rfl⟩

theorem lineNumber_moved (hfollows : relocation.Follows goes) {row : LineNumber}
    (h : (relocation.lineNumber row).failure = none) :
    LineMoved goes row (relocation.lineNumber row).value := by
  unfold Relocation.lineNumber at h ⊢
  obtain ⟨start, hstart, hrow⟩ := Attempt.update_failure_eq_none h
  rw [hrow]
  exact ⟨hfollows.mapWord hstart, rfl⟩

theorem localVariable_moved (hfollows : relocation.Follows goes) {row : LocalVariable}
    (h : (relocation.localVariable row).failure = none) :
    VariableMoved goes row (relocation.localVariable row).value := by
  unfold Relocation.localVariable at h ⊢
  obtain ⟨⟨start, stop⟩, hrange, hrow⟩ := Attempt.update_failure_eq_none h
  obtain ⟨_, hstart, hrange⟩ := except_bind_eq_ok.mp hrange
  obtain ⟨_, hstop, hrange⟩ := except_bind_eq_ok.mp hrange
  cases hrange
  rw [hrow]
  have hstartLe := hfollows.le hstart
  have hstopLe := hfollows.le hstop
  have horder := hfollows.le_of_map_add hstart hstop
  have hstartWord := toNat_ofNat_of_le hstartLe
  have hlengthWord := toNat_ofNat_of_le (Nat.le_trans (Nat.sub_le stop start) hstopLe)
  refine ⟨?_, ?_, rfl, rfl, rfl⟩
  · rw [hstartWord]
    exact hfollows.goes hstart
  · rw [hstartWord, hlengthWord, Nat.add_sub_cancel' horder]
    exact hfollows.goes hstop

/-! ### Frames -/

theorem typeMoved_of_verificationType (hfollows : relocation.Follows goes)
    {removed : Std.TreeSet Nat} {before after : VerificationType}
    (h : relocation.verificationType removed before = .ok after) : TypeMoved goes before after := by
  cases before with
  | uninitialized offset =>
    simp only [Relocation.verificationType] at h
    split at h
    · cases h
    · obtain ⟨word, hword, h⟩ := except_bind_eq_ok.mp h
      cases h
      exact hfollows.mapWord hword
  | _ =>
    cases h
    rfl

theorem frameMoved_setTypes {frame : StackMapFrame} {types : List VerificationType} (delta : UInt16)
    (h : List.Forall₂ (TypeMoved goes) frame.types types) :
    FrameMoved goes frame ((frame.setDelta delta).setTypes types) := by
  cases frame with
  | same old => exact .same _ _
  | sameLocals1 old stack =>
    obtain _ | ⟨hstack, _ | _⟩ := h
    exact .sameLocals1 _ _ hstack
  | sameLocals1Extended old stack =>
    obtain _ | ⟨hstack, _ | _⟩ := h
    exact .sameLocals1Extended _ _ hstack
  | chop old count => exact .chop _ _ _
  | sameExtended old => exact .sameExtended _ _
  | append old locals => exact .append _ _ h
  | full old locals stack =>
    exact .full _ _ (List.forall₂_take_append _ _ _ h.flip).flip
      (List.forall₂_drop_append _ _ _ h.flip).flip

theorem frameTypes_moved (hfollows : relocation.Follows goes) {removed : Std.TreeSet Nat}
    {frame : StackMapFrame} {delta : UInt16}
    (h : (relocation.frameTypes removed (frame.setDelta delta)).failure = none) :
    FrameMoved goes frame (relocation.frameTypes removed (frame.setDelta delta)).value ∧
      (relocation.frameTypes removed (frame.setDelta delta)).value.delta = delta := by
  have htypes := (Attempt.each_failure_eq_none h).imp fun before after hmoved ↦ by
    obtain ⟨type, htype, hvalue⟩ := Attempt.update_failure_eq_none hmoved.1
    rw [hmoved.2] at hvalue
    rw [hvalue]
    exact typeMoved_of_verificationType hfollows htype
  constructor
  · have hsame : (frame.setDelta delta).types = frame.types := by cases frame <;> rfl
    exact frameMoved_setTypes delta (hsame ▸ htypes)
  · have hdelta : ∀ types, ((frame.setDelta delta).setTypes types).delta = delta := by
      cases frame <;> exact fun _ ↦ rfl
    exact hdelta _

theorem framePosition_newDelta (hfollows : relocation.Follows goes)
    {previous : Option Relocation.FramePosition} {delta : UInt16} {new : Nat}
    (hprevious : ∀ position ∈ previous, relocation.map position.old = .ok position.new)
    (h : relocation.map (oldPosition previous delta) = .ok new) :
    framePosition (previous.map FramePosition.new) (newDelta previous new) = new := by
  have hle := hfollows.le h
  cases previous with
  | none => exact toNat_ofNat_of_le hle
  | some previous =>
    have hlt := hfollows.lt (hprevious previous rfl) h
      (show previous.old < previous.old + delta.toNat + 1 by omega)
    change previous.new + (UInt16.ofNat (new - previous.new - 1)).toNat + 1 = new
    rw [toNat_ofNat_of_le (by omega)]
    omega

/-- Each frame stands where its old offset has gone, because the one before it does. -/
theorem frames_moved (hfollows : relocation.Follows goes) {removed : Std.TreeSet Nat}
    {rows : List StackMapFrame} {previous : Option FramePosition}
    (hprevious : ∀ position ∈ previous, relocation.map position.old = .ok position.new)
    (h : (relocation.frames removed previous rows).failure = none) :
    List.Forall₂ (FrameMoved goes) rows (relocation.frames removed previous rows).value ∧
      List.Forall₂ goes (framePositions (previous.map FramePosition.old) rows)
        (framePositions (previous.map FramePosition.new)
          (relocation.frames removed previous rows).value) := by
  induction rows generalizing previous with
  | nil => exact ⟨.nil, .nil⟩
  | cons frame rest ih =>
    unfold Relocation.frames at h ⊢
    cases hmap : relocation.map (oldPosition previous frame.delta) with
    | error fault =>
      simp only [hmap] at h
      cases h
    | ok new =>
      simp only [hmap] at h ⊢
      split at h
      · cases h
      · rename_i hfailure
        obtain ⟨hframe, hdelta⟩ := frameTypes_moved hfollows hfailure
        have hnext : ∀ position ∈ some (FramePosition.mk (oldPosition previous frame.delta) new),
            relocation.map position.old = .ok position.new := by
          rintro position ⟨⟩
          exact hmap
        obtain ⟨hframes, hpositions⟩ := ih hnext h
        refine ⟨.cons hframe hframes, ?_⟩
        have hold : framePosition (previous.map FramePosition.old) frame.delta =
            oldPosition previous frame.delta := by
          cases previous <;> rfl
        have hnew := framePosition_newDelta hfollows hprevious hmap
        simp only [Attempt.within, framePositions]
        rw [hdelta, hold, hnew]
        exact .cons (hfollows.goes hmap) hpositions

/-! ### Bodies -/

theorem attributeContent_moved (hfollows : relocation.Follows goes) {removed : Std.TreeSet Nat}
    {content : AttributeContent}
    (h : (relocation.attributeContent removed content).failure = none) :
    ContentMoved goes content (relocation.attributeContent removed content).value := by
  cases content with
  | lineNumbers rows =>
    refine (Attempt.each_failure_eq_none h).imp fun before after hmoved ↦ ?_
    exact hmoved.2 ▸ lineNumber_moved hfollows hmoved.1
  | localVariables rows =>
    refine (Attempt.each_failure_eq_none h).imp fun before after hmoved ↦ ?_
    exact hmoved.2 ▸ localVariable_moved hfollows hmoved.1
  | localVariableTypes rows =>
    refine (Attempt.each_failure_eq_none h).imp fun before after hmoved ↦ ?_
    exact hmoved.2 ▸ localVariable_moved hfollows hmoved.1
  | stackMap rows => exact frames_moved hfollows (by simp) h
  | _ => rfl

/-- A body that was relocated holds the assembled code, and its tables have moved to where the
relocation leads. -/
theorem relocateBody_moved {body : MethodBody} {instructions : List Instruction}
    {removed : Std.TreeSet Nat} {extraStack : UInt16}
    (h : (relocateBody body instructions removed extraStack).failure = none) :
    ∃ code relocation, assemble instructions body.code.length = .ok (code, relocation) ∧
      (relocateBody body instructions removed extraStack).value.code = code ∧
      (relocateBody body instructions removed extraStack).value.maxStack =
        addStack body.maxStack extraStack ∧
      ∀ goes, relocation.Follows goes →
        BodyMoved goes body (relocateBody body instructions removed extraStack).value := by
  unfold relocateBody at h ⊢
  cases hassemble : assemble instructions body.code.length with
  | error fault =>
    simp only [hassemble] at h
    cases h
  | ok result =>
    obtain ⟨code, relocation⟩ := result
    simp only [hassemble] at h ⊢
    obtain ⟨htables, hcode⟩ := Attempt.andThen_failure_eq_none h
    obtain ⟨hhandlers, hattributes⟩ := Attempt.andThen_failure_eq_none htables
    rw [hcode, hattributes]
    rw [hattributes] at htables
    refine ⟨code, relocation, rfl, rfl, rfl, fun goes hfollows ↦ ⟨?_, ?_, rfl⟩⟩
    · refine (Attempt.each_failure_eq_none hhandlers).imp fun before after hmoved ↦ ?_
      exact hmoved.2 ▸ handler_moved hfollows hmoved.1
    · refine (Attempt.each_failure_eq_none htables).imp fun before after hmoved ↦ ?_
      rw [← hmoved.2]
      exact ⟨rfl, attributeContent_moved hfollows hmoved.1⟩

end Follows

end ClassWeaver.Code
