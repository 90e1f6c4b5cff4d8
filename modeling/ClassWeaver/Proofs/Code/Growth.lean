import ClassWeaver.Proofs.ClassFile.Accepted
import ClassWeaver.Proofs.Code.Sessions
import ClassWeaver.Proofs.Code.Stopping
import ClassWeaver.Proofs.ClassFile.Rereading
import Mathlib.Algebra.BigOperators.Ring.List
import Mathlib.Algebra.Order.BigOperators.Group.List
import Mathlib.Algebra.Order.Ring.Nat

/-!
What edits keep of a body, and how much larger they make it.

Tables that move keep their rows, so that a body stays one that can be written (`Told`). Its code is
never longer than code can be. A frame outgrows its compact form only if it stands at least as far
behind the one before it as that form can tell, and all frames stand within the code; so few frames
do, and the body grows by at most `maxGrowth` bytes, however often it is edited
(`length_bytes_le_of_edited`).
-/

set_option autoImplicit false
set_option relaxedAutoImplicit false

namespace ClassWeaver.ClassFile

/-! ### Well-formed but for its length -/

/-- The name leads to the title of the content, which is well formed. -/
structure Attribute.Told (pool : ConstantPool) (attr : Attribute) : Prop where
  title : pool.text attr.name = .ok attr.content.title
  content : attr.content.WellFormed pool

/-- A body that can be written if it is not too long. -/
structure MethodBody.Told (pool : ConstantPool) (body : MethodBody) : Prop where
  handlers : body.handlers.length ≤ maxCount
  count : body.attributes.length ≤ maxCount
  attributes : ∀ attr ∈ body.attributes, attr.Told pool

section Told

variable {pool larger : ConstantPool} {attr : Attribute} {body : MethodBody}

theorem Attribute.WellFormed.told (h : attr.WellFormed pool) : attr.Told pool := by
  cases h with
  | intro htitle _ hcontent => exact ⟨htitle, hcontent⟩

theorem Attribute.Told.wellFormed (h : attr.Told pool)
    (hlength : attr.content.bytes.length < 4294967296) : attr.WellFormed pool := by
  obtain ⟨name, content⟩ := attr
  exact .intro h.title hlength h.content

theorem Attribute.Told.mono (hextends : larger.Extends pool) (h : attr.Told pool) :
    attr.Told larger :=
  ⟨ConstantPool.lasting_text _ _ _ _ hextends h.title, h.content.mono hextends⟩

theorem told_of_wellFormed (h : AttributeContent.WellFormed pool (.code body)) :
    body.Told pool := by
  cases h with
  | code hhandlers hcount hattributes =>
    exact ⟨hhandlers, hcount, fun attr hmem ↦ (hattributes attr hmem).told⟩

theorem length_bytes_attribute (attr : Attribute) :
    attr.bytes.length = 6 + attr.content.bytes.length := by
  obtain ⟨name, content⟩ := attr
  simp only [Attribute.bytes, List.length_append, length_bytes16, length_bytes32]

/-- The attributes of a body are shorter than the body. -/
theorem MethodBody.Told.wellFormed (h : body.Told pool) (hlength : body.bytes.length < 4294967296) :
    AttributeContent.WellFormed pool (.code body) := by
  refine .code h.handlers h.count fun attr hmem ↦ (h.attributes attr hmem).wellFormed ?_
  have hattribute := Reader.length_le_flatMap Attribute.bytes hmem
  rw [length_bytes_attribute] at hattribute
  rw [Reader.length_bytes_methodBody] at hlength
  omega

end Told

/-! ### Compact forms -/

/-- The bytes of a frame in the compact form of its kind, where it has one. -/
def StackMapFrame.compactLength (frame : StackMapFrame) : Nat :=
  (frame.setDelta 0).bytes.length

/-- The bytes of a content whose frames are compact. -/
def AttributeContent.compactLength : AttributeContent → Nat
  | .stackMap frames => 2 + (frames.map StackMapFrame.compactLength).sum
  | content => content.bytes.length

/-- The bytes of a body whose frames are compact, without its code. -/
def MethodBody.compactLength (body : MethodBody) : Nat :=
  12 + (body.handlers.map (·.bytes.length)).sum +
    (body.attributes.map (6 + ·.content.compactLength)).sum

/-- Frames whose delta does not fit into the compact forms. -/
def StackMapFrame.Outgrown (frame : StackMapFrame) : Prop :=
  compactDelta < frame.delta

instance (frame : StackMapFrame) : Decidable frame.Outgrown :=
  inferInstanceAs (Decidable (compactDelta < frame.delta))

section Compact

variable {frame : StackMapFrame} {content : AttributeContent} {body : MethodBody}

theorem compactLength_le_of_frame (frame : StackMapFrame) :
    frame.compactLength ≤ frame.bytes.length := by
  cases frame with
  | same delta =>
    rw [StackMapFrame.bytes]
    split <;> simp [StackMapFrame.compactLength, StackMapFrame.setDelta, StackMapFrame.bytes]
  | sameLocals1 delta stack =>
    rw [StackMapFrame.bytes]
    split <;> simp [StackMapFrame.compactLength, StackMapFrame.setDelta, StackMapFrame.bytes]
  | _ => exact Nat.le_refl _

/-- An extended form takes two bytes more than a compact one. -/
theorem length_bytes_frame_le (frame : StackMapFrame) :
    frame.bytes.length ≤ frame.compactLength + if frame.Outgrown then 2 else 0 := by
  cases frame with
  | same delta =>
    rw [StackMapFrame.bytes]
    split
    · exact Nat.le_add_right_of_le (Nat.le_refl 1)
    · rename_i hwide
      have houtgrown : (StackMapFrame.same delta).Outgrown := UInt16.not_le.mp hwide
      rw [if_pos houtgrown]
      exact Nat.le_refl 3
  | sameLocals1 delta stack =>
    rw [StackMapFrame.bytes]
    split
    · exact Nat.le_add_right_of_le (Nat.le_refl _)
    · rename_i hwide
      have houtgrown : (StackMapFrame.sameLocals1 delta stack).Outgrown := UInt16.not_le.mp hwide
      rw [if_pos houtgrown]
      change _ ≤ stack.bytes.length + 1 + 2
      simp only [List.length_append, List.length_cons, length_bytes16]
      omega
  | _ => exact Nat.le_add_right _ _

theorem length_countedBytes {α : Type} (item : α → Bytes) (items : List α) :
    (countedBytes item items).length = 2 + (items.map (item · |>.length)).sum := by
  rw [countedBytes, List.length_append, length_bytes16, List.length_flatMap]

theorem compactLength_le_of_content (content : AttributeContent) :
    content.compactLength ≤ content.bytes.length := by
  cases content with
  | stackMap frames =>
    rw [AttributeContent.bytes, length_countedBytes]
    exact Nat.add_le_add_left
      (List.sum_le_sum fun frame _ ↦ compactLength_le_of_frame frame) 2
  | _ => exact Nat.le_refl _

/-- A frame takes a byte at least, and no frame outgrows its compact form by more than two. -/
theorem length_bytes_content_le_mul (content : AttributeContent) :
    content.bytes.length ≤ 3 * content.compactLength := by
  cases content with
  | stackMap frames =>
    have heach : ∀ frame ∈ frames, frame.bytes.length ≤ 3 * frame.compactLength := by
      intro frame _
      have hpos : 0 < frame.compactLength := by
        cases frame <;> simp [StackMapFrame.compactLength, StackMapFrame.setDelta,
          StackMapFrame.bytes]
      have hframe := length_bytes_frame_le frame
      split at hframe <;> omega
    have hsum := List.sum_le_sum heach
    rw [List.sum_map_mul_left] at hsum
    rw [AttributeContent.bytes, length_countedBytes, AttributeContent.compactLength]
    omega
  | _ => exact Nat.le_mul_of_pos_left _ (by decide)

theorem length_bytes_eq_sum (body : MethodBody) :
    body.bytes.length = 12 + body.code.length + (body.handlers.map (·.bytes.length)).sum +
      (body.attributes.map (6 + ·.content.bytes.length)).sum := by
  rw [Reader.length_bytes_methodBody, List.length_flatMap, List.length_flatMap]
  simp only [length_bytes_attribute]

theorem compactLength_le_of_body (body : MethodBody) :
    body.code.length + body.compactLength ≤ body.bytes.length := by
  have hattributes := List.sum_le_sum fun (attr : Attribute) (_ : attr ∈ body.attributes) ↦
    Nat.add_le_add_left (compactLength_le_of_content attr.content) 6
  rw [length_bytes_eq_sum, MethodBody.compactLength]
  omega

/-- So much a body takes at most, wherever its frames stand. -/
theorem length_bytes_le_of_compact (body : MethodBody) :
    body.bytes.length ≤ body.code.length + 3 * body.compactLength := by
  have hattributes : (body.attributes.map (6 + ·.content.bytes.length)).sum ≤
      3 * (body.attributes.map (6 + ·.content.compactLength)).sum := by
    rw [← List.sum_map_mul_left]
    refine List.sum_le_sum fun attr _ ↦ ?_
    have hcontent := length_bytes_content_le_mul attr.content
    omega
  rw [length_bytes_eq_sum, MethodBody.compactLength]
  omega

end Compact

end ClassWeaver.ClassFile

namespace ClassWeaver.Code

open ClassFile

/-! ### What moving keeps -/

section Moved

variable {goes : Nat → Nat → Prop} {pool : ConstantPool}

theorem TypeMoved.length_bytes {before after : VerificationType} (h : TypeMoved goes before after) :
    after.bytes.length = before.bytes.length := by
  unfold TypeMoved at h
  split at h
  · rfl
  · rw [h]

theorem length_bytes_of_typesMoved {before after : List VerificationType}
    (h : List.Forall₂ (TypeMoved goes) before after) :
    (after.flatMap VerificationType.bytes).length =
      (before.flatMap VerificationType.bytes).length := by
  induction h with
  | nil => rfl
  | cons hfirst _ ih =>
    rw [List.flatMap_cons, List.flatMap_cons, List.length_append, List.length_append,
      hfirst.length_bytes, ih]

theorem FrameMoved.wellFormed {before after : StackMapFrame} (h : FrameMoved goes before after)
    (hbefore : before.WellFormed) : after.WellFormed := by
  cases h with
  | chop _ _ count => exact hbefore
  | append _ _ hlocals =>
    rw [StackMapFrame.WellFormed] at hbefore ⊢
    rwa [← hlocals.length_eq]
  | full _ _ hlocals hstack =>
    rw [StackMapFrame.WellFormed] at hbefore ⊢
    rwa [← hlocals.length_eq, ← hstack.length_eq]
  | _ => trivial

theorem FrameMoved.compactLength_eq {before after : StackMapFrame}
    (h : FrameMoved goes before after) : after.compactLength = before.compactLength := by
  cases h with
  | sameLocals1 _ _ hstack | sameLocals1Extended _ _ hstack =>
    simp [StackMapFrame.compactLength, StackMapFrame.setDelta, StackMapFrame.bytes,
      hstack.length_bytes]
  | append _ _ hlocals =>
    simp [StackMapFrame.compactLength, StackMapFrame.setDelta, StackMapFrame.bytes,
      length_bytes_of_typesMoved hlocals]
  | full _ _ hlocals hstack =>
    simp only [StackMapFrame.compactLength, StackMapFrame.setDelta, StackMapFrame.bytes,
      countedBytes, List.length_append, List.length_cons, length_bytes16,
      length_bytes_of_typesMoved hlocals, length_bytes_of_typesMoved hstack]
  | _ => rfl

theorem ContentMoved.title_eq {before after : AttributeContent}
    (h : ContentMoved goes before after) : after.title = before.title := by
  unfold ContentMoved at h
  split at h
  case h_5 => rw [h]
  all_goals rfl

theorem ContentMoved.wellFormed {before after : AttributeContent}
    (h : ContentMoved goes before after) (hbefore : before.WellFormed pool) :
    after.WellFormed pool := by
  unfold ContentMoved at h
  split at h
  case h_1 =>
    cases hbefore with
    | lineNumbers hcount => exact .lineNumbers (h.length_eq ▸ hcount)
  case h_2 =>
    cases hbefore with
    | localVariables hcount => exact .localVariables (h.length_eq ▸ hcount)
  case h_3 =>
    cases hbefore with
    | localVariableTypes hcount => exact .localVariableTypes (h.length_eq ▸ hcount)
  case h_4 =>
    cases hbefore with
    | stackMap hcount hframes =>
      refine .stackMap (h.1.length_eq ▸ hcount) fun frame hmem ↦ ?_
      obtain ⟨old, hold, hmoved⟩ := exists_of_forall₂ h.1 hmem
      exact hmoved.wellFormed (hframes old hold)
  case h_5 => rwa [h]

theorem sum_map_eq_of_forall₂ {α : Type} {measure : α → Nat} {before after : List α}
    (h : List.Forall₂ (fun old new ↦ measure new = measure old) before after) :
    (after.map measure).sum = (before.map measure).sum := by
  induction h with
  | nil => rfl
  | cons hfirst _ ih => rw [List.map_cons, List.map_cons, List.sum_cons, List.sum_cons, hfirst, ih]

theorem ContentMoved.compactLength_eq {before after : AttributeContent}
    (h : ContentMoved goes before after) : after.compactLength = before.compactLength := by
  unfold ContentMoved at h
  split at h
  case h_1 | h_2 | h_3 =>
    -- Every row has the same width.
    simp only [AttributeContent.compactLength, AttributeContent.bytes, length_countedBytes]
    exact congrArg (2 + ·) (sum_map_eq_of_forall₂ (h.imp fun _ _ _ ↦ rfl))
  case h_4 =>
    rw [AttributeContent.compactLength, AttributeContent.compactLength,
      sum_map_eq_of_forall₂ (h.1.imp fun _ _ hframe ↦ hframe.compactLength_eq)]
  case h_5 => rw [h]

theorem KeepsRows.told {before after : MethodBody} (h : KeepsRows goes before after)
    (hbefore : before.Told pool) : after.Told pool := by
  obtain ⟨kept, hkept, hmoved⟩ := h.attributes
  refine ⟨h.handlers.length_eq ▸ hbefore.handlers,
    hmoved.length_eq ▸ Nat.le_trans hkept.length_le hbefore.count, fun attr hmem ↦ ?_⟩
  obtain ⟨old, hold, hattr⟩ := exists_of_forall₂ hmoved hmem
  obtain ⟨htitle, hcontent⟩ := hbefore.attributes old (hkept.subset hold)
  refine ⟨?_, hattr.content.wellFormed hcontent⟩
  rw [hattr.name, hattr.content.title_eq, htitle]

/-- Tables keep their rows, and some are left out. -/
theorem KeepsRows.compactLength_le {before after : MethodBody} (h : KeepsRows goes before after) :
    after.compactLength ≤ before.compactLength := by
  obtain ⟨kept, hkept, hmoved⟩ := h.attributes
  have hhandlers : (after.handlers.map (·.bytes.length)).sum =
      (before.handlers.map (·.bytes.length)).sum :=
    sum_map_eq_of_forall₂ (h.handlers.imp fun _ _ _ ↦ rfl)
  have hattributes : (after.attributes.map (6 + ·.content.compactLength)).sum =
      (kept.map (6 + ·.content.compactLength)).sum :=
    sum_map_eq_of_forall₂ (hmoved.imp fun _ _ hattr ↦
      congrArg (6 + ·) hattr.content.compactLength_eq)
  have hsum := (hkept.map (6 + ·.content.compactLength)).sum_le_sum fun _ _ ↦ Nat.zero_le _
  rw [MethodBody.compactLength, MethodBody.compactLength, hhandlers, hattributes]
  omega

theorem told_of_kept {before after : MethodBody}
    (h : Relation.ReflTransGen (KeepsRows goes) before after) (hbefore : before.Told pool) :
    after.Told pool := by
  induction h with
  | refl => exact hbefore
  | tail _ hstep ih => exact hstep.told ih

theorem compactLength_le_of_kept {before after : MethodBody}
    (h : Relation.ReflTransGen (KeepsRows goes) before after) :
    after.compactLength ≤ before.compactLength := by
  induction h with
  | refl => exact Nat.le_refl _
  | tail _ hstep ih => exact Nat.le_trans hstep.compactLength_le ih

end Moved

/-! ### Frames within the code -/

/-- Where the first frame may stand if the frame before it stands at `previous`. -/
def earliest (previous : Option Nat) : Nat :=
  previous.elim 0 (· + 1)

theorem framePosition_eq (previous : Option Nat) (delta : UInt16) :
    framePosition previous delta = earliest previous + delta.toNat := by
  cases previous with
  | none => exact (Nat.zero_add _).symm
  | some previous => exact Nat.add_right_comm ..

/-- Frames that have outgrown the compact forms stand far from each other. -/
theorem countP_outgrown_le {frames : List StackMapFrame} {previous : Option Nat} {bound : Nat}
    (hprevious : earliest previous ≤ bound + 1)
    (h : ∀ position ∈ framePositions previous frames, position ≤ bound) :
    64 * frames.countP (·.Outgrown) + earliest previous ≤ bound + 1 := by
  induction frames generalizing previous with
  | nil => simpa using hprevious
  | cons frame rest ih =>
    obtain ⟨hposition, hrest⟩ := List.forall_mem_cons.mp h
    have hnext : earliest (some (framePosition previous frame.delta)) ≤ bound + 1 :=
      Nat.succ_le_succ hposition
    have hothers := ih hnext hrest
    rw [framePosition_eq] at hposition hothers
    change _ + (earliest previous + frame.delta.toNat + 1) ≤ _ at hothers
    rw [List.countP_cons]
    by_cases houtgrown : frame.Outgrown
    · have hfar : 63 < frame.delta.toNat := UInt16.lt_iff_toNat_lt.mp houtgrown
      rw [if_pos (decide_eq_true houtgrown)]
      omega
    · rw [if_neg (by simpa using houtgrown)]
      omega

theorem sum_length_bytes_le (frames : List StackMapFrame) :
    (frames.map (·.bytes.length)).sum ≤
      (frames.map StackMapFrame.compactLength).sum + 2 * frames.countP (·.Outgrown) := by
  induction frames with
  | nil => exact Nat.le_refl 0
  | cons frame rest ih =>
    have hframe := length_bytes_frame_le frame
    rw [List.map_cons, List.map_cons, List.sum_cons, List.sum_cons, List.countP_cons]
    simp only [decide_eq_true_eq]
    split at hframe
    · rename_i houtgrown
      rw [if_pos houtgrown]
      omega
    · rename_i hcompact
      rw [if_neg hcompact]
      omega

/-- All frames of a content stand within the longest code. -/
def FramesWithin (content : AttributeContent) : Prop :=
  ∀ frames, content = .stackMap frames →
    ∀ position ∈ framePositions none frames, position ≤ maxCodeLength

theorem ContentMoved.framesWithin {before after : AttributeContent}
    (h : ContentMoved (fun _ new ↦ new ≤ maxCodeLength) before after) : FramesWithin after := by
  rintro frames rfl position hmem
  cases before with
  | stackMap old =>
    obtain ⟨_, -, hle⟩ := exists_of_forall₂ h.2 hmem
    exact hle
  | _ => cases h

theorem length_bytes_content_le {content : AttributeContent} (h : FramesWithin content) :
    content.bytes.length ≤ content.compactLength + 2048 := by
  cases content with
  | stackMap frames =>
    have hsum := sum_length_bytes_le frames
    have hfew := countP_outgrown_le (Nat.zero_le _) (h frames rfl)
    rw [earliest, Option.elim_none, maxCodeLength] at hfew
    rw [AttributeContent.bytes, length_countedBytes, AttributeContent.compactLength]
    omega
  | _ => exact Nat.le_add_right _ _

/-! ### Bodies that were edited -/

/-- What edits can add to a body: the longest code, and what frames can outgrow in each of as many
attributes as there can be. -/
def maxGrowth : Nat :=
  maxCodeLength + 2048 * maxCount

variable {before after : MethodBody} {pool : ConstantPool}

theorem kept_of_edited (h : Relation.TransGen BodyEdited before after) :
    Relation.ReflTransGen (KeepsRows fun _ new ↦ new ≤ maxCodeLength) before after :=
  Relation.ReflTransGen.mono (fun _ _ hedit ↦ hedit.tables.keepsRows) _ _ h.to_reflTransGen

theorem length_bytes_le_of_edited (h : Relation.TransGen BodyEdited before after)
    (hbefore : before.Told pool) : after.bytes.length ≤ before.bytes.length + maxGrowth := by
  have hcompact := Nat.le_trans (compactLength_le_of_kept (kept_of_edited h))
    (Nat.le_trans (Nat.le_add_left _ _) (compactLength_le_of_body before))
  have hcount := (told_of_kept (kept_of_edited h) hbefore).count
  obtain ⟨last, -, hcode, htables⟩ := Relation.TransGen.tail'_iff.mp h
  have hattributes : (after.attributes.map (6 + ·.content.bytes.length)).sum ≤
      (after.attributes.map (6 + ·.content.compactLength)).sum +
        2048 * after.attributes.length := by
    have heach : ∀ attr ∈ after.attributes,
        6 + attr.content.bytes.length ≤ 6 + attr.content.compactLength + 2048 := by
      intro attr hmem
      obtain ⟨_, -, hmoved⟩ := exists_of_forall₂ htables.attributes hmem
      have hcontent := length_bytes_content_le hmoved.content.framesWithin
      omega
    calc (after.attributes.map (6 + ·.content.bytes.length)).sum
        ≤ (after.attributes.map fun attr ↦ 6 + attr.content.compactLength + 2048).sum :=
          List.sum_le_sum heach
      _ = (after.attributes.map (6 + ·.content.compactLength)).sum +
            2048 * after.attributes.length := by
          rw [List.sum_map_add, List.map_const', List.sum_replicate_nat, Nat.mul_comm]
  rw [length_bytes_eq_sum]
  rw [MethodBody.compactLength] at hcompact
  have hall : 2048 * after.attributes.length ≤ 2048 * maxCount := Nat.mul_le_mul_left _ hcount
  rw [maxGrowth]
  omega

/-! ### Bodies whose edits may have been stopped -/

/-- The body comes of the other one by relocations, whether these came to an end or not. -/
structure BodyRevised (before after : MethodBody) : Prop where
  length : after.code.length ≤ max before.code.length maxCodeLength
  rows : Relation.ReflTransGen (KeepsRows Anywhere) before after

theorem BodyDisturbed.revised (h : BodyDisturbed before after) : BodyRevised before after :=
  ⟨h.code ▸ Nat.le_max_left _ _, h.rows⟩

theorem BodyRevised.told (h : BodyRevised before after) (hbefore : before.Told pool) :
    after.Told pool :=
  told_of_kept h.rows hbefore

/-- Nothing is known of where frames stand that were left behind, so that any of them may have
outgrown its compact form. -/
theorem BodyRevised.length_bytes_le (h : BodyRevised before after) :
    after.bytes.length ≤ 3 * before.bytes.length + maxCodeLength := by
  have hcompact := compactLength_le_of_kept h.rows
  have hbefore := compactLength_le_of_body before
  have hafter := length_bytes_le_of_compact after
  have hcode := h.length
  omega

end ClassWeaver.Code
