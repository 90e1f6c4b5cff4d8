import ClassWeaver.Proofs.Code.Expansion
import ClassWeaver.Proofs.Transformer.Skipping

/-!
Rewrites of one method, which a selector selects.

What such a rewrite answers tells what it has done. With bytes, it has edited the body of the method
(`Applied`), and the bytes are those of the class that it has left; without any, there was nothing
to edit. The bytes are read again as the class that was left, with frames in the form in which they
are written (`MethodEdited.reread`).
-/

set_option autoImplicit false
set_option relaxedAutoImplicit false

namespace ClassWeaver

open ClassFile Code

/-! ### One selected method -/

/-- Edits the method that a selector selects. -/
def editSelected (selector : String) (change : Member → BodyEdit Id Unit) : ClassEdit Id Bool := do
  let index ← ClassEdit.ofExcept ((← ClassEdit.current).findMethod selector)
  ClassEdit.editMethod index change

variable {policy : FrozenPolicy} {selector : String} {change : Member → BodyEdit Id Unit}
  {cls after : EditableClass} {answer : Bool} {bytes : Bytes}

theorem editSelected_eq_ok_iff :
    (editSelected selector change).run.run cls = (.ok answer, after) ↔
      ∃ index, cls.findMethod selector = .ok index ∧ cls.frozen = false ∧
        MethodEdited index change cls answer after := by
  have hfind : editSelected selector change =
      ClassEdit.current >>= fun found ↦ ClassEdit.ofExcept (found.findMethod selector) >>=
        fun index ↦ ClassEdit.editMethod index change := rfl
  rw [hfind]
  constructor
  · intro h
    obtain ⟨_, _, hcurrent, h⟩ := edit_bind_eq_ok.mp h
    cases hcurrent
    obtain ⟨index, _, hfound, h⟩ := edit_bind_eq_ok.mp h
    obtain ⟨hindex, rfl⟩ := Prod.mk.inj hfound
    exact ⟨index, hindex, editMethod_eq_ok_iff.mp h⟩
  · rintro ⟨index, hindex, hedited⟩
    exact edit_bind_eq_ok.mpr ⟨cls, cls, rfl, edit_bind_eq_ok.mpr
      ⟨index, cls, congrArg (Prod.mk · cls) hindex, editMethod_eq_ok_iff.mpr hedited⟩⟩

theorem edited_of_editUnlessFrozen {edit : ClassEdit Id Bool}
    (h : (editUnlessFrozen policy edit).run.run cls = (.ok (some bytes), after)) :
    ∃ between, edit.run.run cls.defrost = (.ok true, between) ∧ bytes = between.bytes ∧
      after = { between with frozen := true } := by
  rw [editUnlessFrozen_run] at h
  split at h
  · cases h
  · rcases hran : edit.run.run cls.defrost with ⟨outcome, between⟩
    rw [hran] at h
    cases outcome with
    | error failure => cases h
    | ok answer =>
      cases answer with
      | false => cases h
      | true =>
        cases h
        exact ⟨between, rfl, rfl, rfl⟩

theorem unedited_of_editUnlessFrozen {edit : ClassEdit Id Bool} (hfrozen : cls.frozen = false)
    (h : (editUnlessFrozen policy edit).run.run cls = (.ok none, after)) :
    edit.run.run cls = (.ok false, after) := by
  rw [editUnlessFrozen_run, hfrozen, EditableClass.defrost_of_thawed hfrozen] at h
  rcases hran : edit.run.run cls with ⟨outcome, between⟩
  rw [hran] at h
  cases outcome with
  | error failure => cases h
  | ok answer =>
    cases answer with
    | false =>
      cases h
      rfl
    | true => cases h

/-! ### What was made of the class -/

/-- A change of the body of a method that was recorded, and applied without a failure. -/
structure Applied (index : Nat) (change : Member → BodyEdit Id Unit) (cls after : EditableClass)
    (method : Member) (body : MethodBody) (editor later : Editor) : Prop where
  selected : cls.file.methods[index]? = some method
  hasBody : method.body? = some body
  opened : Editor.ofBody cls.file.pool body = .ok editor
  recorded : (change method).run.run editor = (.ok (), later)
  modified : later.isModified = true
  applied : (later.apply body).failure = none
  pool : after.file.pool = later.pool
  written : after.bytes = after.file.bytes
  revised : after.file.methods[index]? = some (method.setBody (later.apply body).value)
  others : ∀ other, other ≠ index → after.file.methods[other]? = cls.file.methods[other]?

variable {index : Nat}

theorem MethodEdited.applied (h : MethodEdited index change cls true after) :
    ∃ method body editor later, Applied index change cls after method body editor later := by
  cases h with
  | modified hmethod hbody heditor hrun hmodified happlied =>
    refine ⟨_, _, _, _, hmethod, hbody, heditor, hrun, hmodified, happlied, rfl, rfl, ?_,
      fun other hother ↦ List.getElem?_modify_ne _ _ hother.symm⟩
    refine (List.getElem?_modify_eq _ _ _).trans ?_
    rw [hmethod]
    rfl

/-- Another change that does the same to this method. -/
theorem MethodEdited.congr {other : Member → BodyEdit Id Unit}
    (h : MethodEdited index change cls answer after)
    (hsame : ∀ method body editor later, cls.file.methods[index]? = some method →
      Editor.ofBody cls.file.pool body = .ok editor →
        (change method).run.run editor = (.ok (), later) →
          (other method).run.run editor = (.ok (), later)) :
    MethodEdited index other cls answer after := by
  cases h with
  | bodiless hmethod hbody => exact .bodiless hmethod hbody
  | unmodified hmethod hbody heditor hrun hmodified =>
    exact .unmodified hmethod hbody heditor (hsame _ _ _ _ hmethod heditor hrun) hmodified
  | modified hmethod hbody heditor hrun hmodified happlied =>
    exact .modified hmethod hbody heditor (hsame _ _ _ _ hmethod heditor hrun) hmodified happlied

/-- After a change that uses its editor as an editor allows, the bytes are read again, if what edits
have added to the lengths of bodies is not too much. -/
theorem MethodEdited.reread {before : ClassFile} (hallowed : ∀ method, (change method).Allowed)
    (hsource : ClassFile.parse cls.source = .ok before) (hclass : Reworked [] before cls.file)
    (h : MethodEdited index change cls true after) :
    (after.file.Fits → ClassFile.parse after.file.bytes = .ok after.file.widened ∧
      AgreesOutside [index] before after.file.widened) ∧
    (cls.source.length + maxGrowth < 4294967296 → after.file.Fits) := by
  have hsettled := settled_of_parse hsource
  have hcall : MethodCall.Allowed ⟨index, change⟩ := hallowed
  obtain ⟨hreworked, -⟩ := MethodEdited.reworked hcall hclass h
  refine ⟨fun hfits ↦ ⟨parse_of_reworked hreworked hsettled hfits, hreworked.agrees hsettled⟩,
    fun hlength ↦ hreworked.fits hsettled ?_⟩
  have hmethods := length_methods_le hsource
  omega

/-- Wherever failures have left the tables of the class before. -/
theorem MethodEdited.revised {before : ClassFile} (hallowed : ∀ method, (change method).Allowed)
    (hclass : Rebodied BodyDisturbed before cls.file)
    (h : MethodEdited index change cls true after) :
    Rebodied BodyRevised before after.file := by
  cases h with
  | @modified method body editor later hmethod hbody heditor hrun hmodified happlied =>
    have hbecomes := hallowed method editor
    rw [hrun] at hbecomes
    have hedit := edited_of_apply heditor hbecomes hmodified happlied
    refine ((hclass.mono BodyDisturbed.revised).withPool later.pool).setBody hmethod hbody ?_
    have hrows := (stopsWithin_apply body hmodified).rows
    rintro start (rfl | hstart)
    · exact ⟨Nat.le_trans hedit.code (Nat.le_max_right _ _), .single hrows⟩
    · exact ⟨Nat.le_trans hedit.code (Nat.le_max_right _ _), hstart.rows.tail hrows⟩

/-- But for the method, the class that is left agrees with the class that was edited. -/
theorem MethodEdited.agrees (hallowed : ∀ method, (change method).Allowed)
    (hextends : after.file.pool.Extends cls.file.pool)
    (h : MethodEdited index change cls true after) :
    AgreesOutside [index] cls.file.widened after.file.widened := by
  obtain ⟨method, body, editor, later, happlied⟩ := h.applied
  exact (h.revised hallowed (.refl cls.file)).agrees hextends fun other hother ↦
    happlied.others other fun heq ↦ hother (List.mem_singleton.mpr heq)

/-! ### Reading it again -/

/-- The method has got a body that expands the one that it had, in a class that otherwise agrees
with the one that was read first. -/
structure Rewritten (expand : Nat → Instruction → List Instruction) (index : Nat)
    (original revised : List Instruction) (old new : MethodBody) (file before again : ClassFile) :
    Prop where
  selected : ∃ method, file.methods[index]? = some method ∧ method.body? = some old
  decoded : decode old.code = .ok original
  expands : Expands expand original revised old new
  reread : ∃ method, again.methods[index]? = some method ∧ method.body? = some new.widened ∧
    decode new.widened.code = .ok revised
  agrees : AgreesOutside [index] before again

theorem Applied.rewritten {method : Member} {body : MethodBody} {editor later : Editor}
    {expand : Nat → Instruction → List Instruction} {original revised : List Instruction}
    {before : ClassFile} (h : Applied index change cls after method body editor later)
    (hdecode : decode body.code = .ok original)
    (hexpands : Expands expand original revised body (later.apply body).value)
    (hagrees : AgreesOutside [index] before after.file.widened) :
    Rewritten expand index original revised body (later.apply body).value cls.file before
      after.file.widened where
  selected := ⟨method, h.selected, h.hasBody⟩
  decoded := hdecode
  expands := hexpands
  reread := by
    refine ⟨(method.setBody (later.apply body).value).widened, ?_, ?_,
      (congrArg decode (MethodBody.code_widened _)).trans hexpands.code⟩
    · exact (List.getElem?_map ..).trans (congrArg (Option.map Member.widened) h.revised)
    · rw [Member.body?_widened, Member.body?_setBody h.hasBody]
      rfl
  agrees := hagrees

end ClassWeaver
