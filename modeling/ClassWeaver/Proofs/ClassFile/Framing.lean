import ClassWeaver.Proofs.Code.Growth

/-!
What edits of method bodies leave of a class file.

Only bodies change, and the constant pool (`Rebodied`). While the pool grows, everything else of the
class still leads to the same entries of it, so that the class can be written and read again once
its bodies are not too long (`Fits`). After edits that succeed (`Reworked`) it is found as it was
(`agrees_of_reworked`).
-/

set_option autoImplicit false
set_option relaxedAutoImplicit false

namespace ClassWeaver.ClassFile

open Code Text

/-! ### Classes whose bodies were changed -/

/-- The attribute is the same, but that a method body has become another. -/
inductive Attribute.Rebodied (bodies : MethodBody → MethodBody → Prop) :
    Attribute → Attribute → Prop
  | same (attr : Attribute) : Rebodied bodies attr attr
  | body (name : UInt16) {before after : MethodBody} (hbodies : bodies before after) :
    Rebodied bodies ⟨name, .code before⟩ ⟨name, .code after⟩

structure Member.Rebodied (bodies : MethodBody → MethodBody → Prop) (before after : Member) :
    Prop where
  access : after.access = before.access
  name : after.name = before.name
  descriptor : after.descriptor = before.descriptor
  attributes : List.Forall₂ (Attribute.Rebodied bodies) before.attributes after.attributes

/-- The pool and bodies of methods have become others; the rest of the class is the same. -/
structure Rebodied (bodies : MethodBody → MethodBody → Prop) (before after : ClassFile) :
    Prop where
  rest : after = { before with pool := after.pool, methods := after.methods }
  methods : List.Forall₂ (Member.Rebodied bodies) before.methods after.methods

/-- Bodies of the methods with the numbers in `edited` went through edits, and the pool has grown;
the rest of the class is the same. -/
structure Reworked (edited : List Nat) (before after : ClassFile) : Prop where
  rebodied : Rebodied (Relation.TransGen BodyEdited) before after
  pool : after.pool.WellFormed
  extending : after.pool.Extends before.pool
  untouched : ∀ index, index ∉ edited → after.methods[index]? = before.methods[index]?

section Rebodied

variable {before between : ClassFile} {edited : List Nat} {pool : ConstantPool}
  {bodies later : MethodBody → MethodBody → Prop}

theorem Member.Rebodied.refl (member : Member) : member.Rebodied bodies member :=
  ⟨rfl, rfl, rfl, List.forall₂_same.mpr fun attr _ ↦ .same attr⟩

theorem Rebodied.refl (file : ClassFile) : Rebodied bodies file file :=
  ⟨rfl, List.forall₂_same.mpr fun member _ ↦ .refl member⟩

theorem Reworked.refl {file : ClassFile} (h : file.pool.WellFormed) : Reworked [] file file :=
  ⟨.refl file, h, .refl _, fun _ _ ↦ rfl⟩

theorem Attribute.Rebodied.mono {old new : Attribute} (h : old.Rebodied bodies new)
    (hbodies : ∀ {old new}, bodies old new → later old new) : old.Rebodied later new := by
  cases h with
  | same => exact .same old
  | body name hbody => exact .body name (hbodies hbody)

theorem Rebodied.mono (h : Rebodied bodies before between)
    (hbodies : ∀ {old new}, bodies old new → later old new) : Rebodied later before between :=
  ⟨h.rest, h.methods.imp fun _ _ hmember ↦ ⟨hmember.access, hmember.name, hmember.descriptor,
    hmember.attributes.imp fun _ _ hattr ↦ hattr.mono hbodies⟩⟩

theorem Rebodied.withPool (h : Rebodied bodies before between) (pool : ConstantPool) :
    Rebodied bodies before { between with pool } :=
  ⟨by rw [h.rest], h.methods⟩

theorem forall₂_trans {α : Type} {relation : α → α → Prop} {first second third : List α}
    (htrans : ∀ {one two three}, relation one two → relation two three → relation one three)
    (h : List.Forall₂ relation first second) (hlater : List.Forall₂ relation second third) :
    List.Forall₂ relation first third := by
  induction h generalizing third with
  | nil => exact hlater
  | cons hfirst _ ih =>
    obtain _ | ⟨hnext, hrest⟩ := hlater
    exact .cons (htrans hfirst hnext) (ih hrest)

theorem Attribute.Rebodied.trans {first second third : Attribute}
    (htrans : ∀ {one two three}, bodies one two → bodies two three → bodies one three)
    (h : first.Rebodied bodies second) (hlater : second.Rebodied bodies third) :
    first.Rebodied bodies third := by
  cases h with
  | same => exact hlater
  | body name hbody =>
    cases hlater with
    | same => exact .body name hbody
    | body _ hnext => exact .body name (htrans hbody hnext)

theorem Rebodied.trans {after : ClassFile}
    (htrans : ∀ {one two three}, bodies one two → bodies two three → bodies one three)
    (h : Rebodied bodies before between) (hlater : Rebodied bodies between after) :
    Rebodied bodies before after where
  rest := by rw [hlater.rest, h.rest]
  methods := forall₂_trans (fun hmember hnext ↦ ⟨hnext.access.trans hmember.access,
    hnext.name.trans hmember.name, hnext.descriptor.trans hmember.descriptor,
    forall₂_trans (Attribute.Rebodied.trans htrans) hmember.attributes hnext.attributes⟩)
    h.methods hlater.methods

/-- Another body in the place of the first one among the attributes. -/
theorem rebodied_replaceBody {old attributes : List Attribute} {body new : MethodBody}
    (h : List.Forall₂ (Attribute.Rebodied bodies) old attributes)
    (hbody : attributes.findSome? Attribute.body? = some body)
    (hnew : ∀ {start}, start = body ∨ bodies start body → bodies start new) :
    List.Forall₂ (Attribute.Rebodied bodies) old (replaceBody new attributes) := by
  induction h with
  | nil => cases hbody
  | @cons first attr _ _ hfirst hrest ih =>
    rw [List.findSome?_cons] at hbody
    cases hfound : attr.body? with
    | none =>
      rw [hfound] at hbody
      rw [replaceBody, hfound]
      exact .cons hfirst (ih hbody)
    | some found =>
      rw [hfound] at hbody
      obtain rfl : found = body := Option.some.inj hbody
      rw [replaceBody, hfound]
      refine .cons ?_ hrest
      cases hfirst with
      | body name hbodies =>
        cases hfound
        exact .body name (hnew (.inr hbodies))
      | same attr =>
        obtain ⟨name, content⟩ := first
        cases content with
        | code old =>
          cases hfound
          exact .body name (hnew (.inl rfl))
        | _ => cases hfound

theorem Member.body?_setBody {member : Member} {body new : MethodBody}
    (h : member.body? = some body) : (member.setBody new).body? = some new := by
  obtain ⟨access, name, descriptor, attributes⟩ := member
  change attributes.findSome? Attribute.body? = some body at h
  change (replaceBody new attributes).findSome? Attribute.body? = some new
  induction attributes with
  | nil => cases h
  | cons attr rest ih =>
    rw [List.findSome?_cons] at h
    rw [replaceBody]
    cases hfound : attr.body? with
    | some found =>
      rw [Option.isSome_some, if_pos rfl]
      rfl
    | none =>
      rw [hfound] at h
      rw [Option.isSome_none, if_neg Bool.false_ne_true, List.findSome?_cons, hfound]
      exact ih h

theorem Rebodied.setBody (h : Rebodied bodies before between) {index : Nat} {method : Member}
    {body new : MethodBody} (hmethod : between.methods[index]? = some method)
    (hbody : method.body? = some body)
    (hnew : ∀ {start}, start = body ∨ bodies start body → bodies start new) :
    Rebodied bodies before
      { between with methods := between.methods.modify index (·.setBody new) } where
  rest := by rw [h.rest]
  methods := by
    refine List.forall₂_iff_get.mpr ⟨?_, fun place hold hnewPlace ↦ ?_⟩
    · rw [List.length_modify, h.methods.length_eq]
    · have hplace : place < between.methods.length := h.methods.length_eq ▸ hold
      have hmember := h.methods.get hold hplace
      simp only [List.get_eq_getElem, List.getElem_modify] at hmember ⊢
      split
      · rename_i hsame
        subst hsame
        obtain rfl : between.methods[index] = method :=
          Option.some.inj ((List.getElem?_eq_getElem hplace).symm.trans hmethod)
        exact ⟨hmember.access, hmember.name, hmember.descriptor,
          rebodied_replaceBody hmember.attributes hbody hnew⟩
      · exact hmember

theorem exists_body_of_rebodied {old attributes : List Attribute} {body : MethodBody}
    (h : List.Forall₂ (Attribute.Rebodied bodies) old attributes)
    (hbody : attributes.findSome? Attribute.body? = some body) :
    ∃ start, old.findSome? Attribute.body? = some start ∧ (start = body ∨ bodies start body) := by
  induction h with
  | nil => cases hbody
  | cons hfirst _ ih =>
    cases hfirst with
    | body name hbodies =>
      cases hbody
      exact ⟨_, rfl, .inr hbodies⟩
    | same attr =>
      rw [List.findSome?_cons] at hbody ⊢
      split at hbody
      · exact ⟨body, hbody, .inl rfl⟩
      · exact ih hbody

/-- A method that has a body had one before, which that body comes of. -/
theorem Rebodied.exists_body (h : Rebodied bodies before between) {index : Nat} {method : Member}
    {body : MethodBody} (hmethod : between.methods[index]? = some method)
    (hbody : method.body? = some body) :
    ∃ earlier start, before.methods[index]? = some earlier ∧ earlier.body? = some start ∧
      (start = body ∨ bodies start body) := by
  obtain ⟨hplace, rfl⟩ := List.getElem?_eq_some_iff.mp hmethod
  have hold : index < before.methods.length := h.methods.length_eq ▸ hplace
  have hmember := h.methods.get hold hplace
  obtain ⟨start, hstart, hbodies⟩ := exists_body_of_rebodied hmember.attributes hbody
  exact ⟨_, start, List.getElem?_eq_getElem hold, hstart, hbodies⟩

/-- Bodies that were disturbed have the instructions that they had. -/
theorem Rebodied.exists_decoded (h : Rebodied BodyDisturbed before between) {index : Nat}
    {method : Member} {body : MethodBody} {original : List Instruction}
    (hmethod : between.methods[index]? = some method) (hbody : method.body? = some body)
    (hdecode : decode body.code = .ok original) :
    ∃ earlier start, before.methods[index]? = some earlier ∧ earlier.body? = some start ∧
      decode start.code = .ok original := by
  obtain ⟨earlier, start, hearlier, hstart, rfl | hdisturbed⟩ := h.exists_body hmethod hbody
  · exact ⟨earlier, start, hearlier, hstart, hdecode⟩
  · exact ⟨earlier, start, hearlier, hstart, hdisturbed.code ▸ hdecode⟩

theorem Reworked.withPool (h : Reworked edited before between) (hpool : pool.WellFormed)
    (hextends : pool.Extends between.pool) : Reworked edited before { between with pool } :=
  ⟨h.rebodied.withPool pool, hpool, hextends.trans h.extending, h.untouched⟩

theorem Reworked.setBody (h : Reworked edited before between) {index : Nat} {method : Member}
    {body new : MethodBody} (hmethod : between.methods[index]? = some method)
    (hbody : method.body? = some body) (hedit : BodyEdited body new) :
    Reworked (edited ++ [index]) before
      { between with methods := between.methods.modify index (·.setBody new) } where
  rebodied := h.rebodied.setBody hmethod hbody fun hstart ↦ by
    rcases hstart with rfl | hedits
    · exact .single hedit
    · exact .tail hedits hedit
  pool := h.pool
  extending := h.extending
  untouched := by
    intro place hplace
    have hold : place ∉ edited := fun hmem ↦ hplace (List.mem_append_left _ hmem)
    have hother : index ≠ place := by
      rintro rfl
      exact hplace (List.mem_append_right _ (List.mem_singleton_self _))
    exact (List.getElem?_modify_ne _ _ hother).trans (h.untouched place hold)

end Rebodied

/-! ### Writing them -/

/-- The length of every attribute of the methods can be told in four bytes. -/
def Fits (file : ClassFile) : Prop :=
  ∀ method ∈ file.methods, ∀ attr ∈ method.attributes, attr.content.bytes.length < 4294967296

section Writing

variable {before after : ClassFile} {edited : List Nat} {pool larger : ConstantPool}
  {bodies : MethodBody → MethodBody → Prop}

theorem Attribute.Rebodied.wellFormed {old new : Attribute} (h : old.Rebodied bodies new)
    (htold : ∀ {old new}, bodies old new → old.Told larger → new.Told larger)
    (hextends : larger.Extends pool) (hold : old.WellFormed pool)
    (hlength : new.content.bytes.length < 4294967296) : new.WellFormed larger := by
  cases h with
  | same attr => exact hold.mono hextends
  | body name hbodies =>
    obtain ⟨htitle, hcontent⟩ := hold.told.mono hextends
    exact .intro htitle hlength ((htold hbodies (told_of_wellFormed hcontent)).wellFormed
      (by simpa only [AttributeContent.bytes] using hlength))

theorem AttributesSettled.wellFormed {attributes : List Attribute}
    (h : AttributesSettled pool attributes) (hextends : larger.Extends pool) :
    AttributesWellFormed larger attributes :=
  ⟨h.count, fun attr hmem ↦ (h.each attr hmem).wellFormed.mono hextends⟩

theorem Rebodied.wellFormed (h : Rebodied bodies before after)
    (htold : ∀ {old new}, bodies old new → old.Told after.pool → new.Told after.pool)
    (hpool : after.pool.WellFormed) (hextends : after.pool.Extends before.pool)
    (hbefore : before.Settled) (hfits : after.Fits) : after.WellFormed where
  pool := hpool
  interfaces := by
    rw [h.rest]
    exact hbefore.interfaces
  fields := by
    rw [h.rest]
    exact hbefore.fields
  fieldAttributes := by
    rw [h.rest]
    exact fun field hmem ↦ (hbefore.fieldAttributes field hmem).wellFormed hextends
  methods := h.methods.length_eq ▸ hbefore.methods
  methodAttributes := by
    intro method hmem
    obtain ⟨old, hold, hmember⟩ := exists_of_forall₂ h.methods hmem
    have hsettled := hbefore.methodAttributes old hold
    refine ⟨hmember.attributes.length_eq ▸ hsettled.count, fun attr hattr ↦ ?_⟩
    obtain ⟨oldAttr, holdAttr, hrebodied⟩ := exists_of_forall₂ hmember.attributes hattr
    exact hrebodied.wellFormed htold hextends (hsettled.each oldAttr holdAttr).wellFormed
      (hfits method hmem attr hattr)
  attributes := by
    rw [h.rest]
    exact hbefore.attributes.wellFormed hextends

/-- The methods of a class that was read are no longer than what it was read from. -/
theorem length_methods_le {input : Bytes} {file : ClassFile} (h : parse input = .ok file) :
    (countedBytes Member.bytes file.methods).length ≤ input.length := by
  obtain ⟨⟨read, rest⟩, hread, h⟩ := except_bind_eq_ok.mp h
  dsimp only at h
  split at h
  · cases h
    obtain ⟨declared, raw, tail, hinput, hbytes, -⟩ := classFile_eq_ok hread
    have hinputLength := congrArg List.length hinput
    have hbytesLength := congrArg List.length hbytes
    rw [ClassFile.bytes] at hbytesLength
    simp only [List.length_append] at hinputLength hbytesLength
    omega
  · cases h

/-- The bodies fit if each of them does that comes of a body that is no longer than the methods. -/
theorem Rebodied.fits (h : Rebodied bodies before after) (hbefore : before.Settled)
    (hlength : (countedBytes Member.bytes before.methods).length < 4294967296)
    (hbodies : ∀ {old new}, bodies old new → old.Told before.pool →
      old.bytes.length ≤ (countedBytes Member.bytes before.methods).length →
        new.bytes.length < 4294967296) : after.Fits := by
  intro method hmem attr hattr
  obtain ⟨old, hold, hmember⟩ := exists_of_forall₂ h.methods hmem
  obtain ⟨oldAttr, holdAttr, hrebodied⟩ := exists_of_forall₂ hmember.attributes hattr
  have hsettled := (hbefore.methodAttributes old hold).each oldAttr holdAttr
  have holdLength : oldAttr.content.bytes.length ≤
      (countedBytes Member.bytes before.methods).length := by
    have hattribute := Reader.length_le_flatMap Attribute.bytes holdAttr
    have hmethod := Reader.length_le_flatMap Member.bytes hold
    simp only [Member.bytes, countedBytes, List.length_append] at hmethod ⊢
    rw [length_bytes_attribute] at hattribute
    omega
  cases hrebodied with
  | same attr => exact Nat.lt_of_le_of_lt holdLength hlength
  | body name hbody =>
    simp only [AttributeContent.bytes] at holdLength ⊢
    exact hbodies hbody (told_of_wellFormed hsettled.wellFormed.told.content) holdLength

/-- What the bodies of a class take is at most what they took before and what edits can add. -/
theorem Reworked.fits (h : Reworked edited before after) (hbefore : before.Settled)
    (hlength : (countedBytes Member.bytes before.methods).length + maxGrowth < 4294967296) :
    after.Fits := by
  refine h.rebodied.fits hbefore (Nat.lt_of_le_of_lt (Nat.le_add_right _ _) hlength) ?_
  intro old new hedits htold hold
  have hgrowth := length_bytes_le_of_edited hedits htold
  omega

theorem Rebodied.fits_of_revised (h : Rebodied BodyRevised before after)
    (hbefore : before.Settled)
    (hlength : 3 * (countedBytes Member.bytes before.methods).length + maxCodeLength <
      4294967296) : after.Fits := by
  refine h.fits hbefore (by omega) fun hrevised _ hold ↦ ?_
  have hgrowth := hrevised.length_bytes_le
  omega

end Writing

/-! ### Reading them again -/

/-- Attributes that agree but for what is inside method bodies. -/
structure Attribute.AgreesOutsideCode (before after : Attribute) : Prop where
  name : after.name = before.name
  content : after = before ∨ before.body?.isSome ∧ after.body?.isSome

/-- Methods that agree but for what is inside their bodies. -/
structure Member.AgreesOutsideCode (before after : Member) : Prop where
  access : after.access = before.access
  name : after.name = before.name
  descriptor : after.descriptor = before.descriptor
  attributes : List.Forall₂ Attribute.AgreesOutsideCode before.attributes after.attributes

/-- Classes that agree but for the bodies of the methods with the numbers in `edited`, and but for
entries that only the later pool has. -/
structure AgreesOutside (edited : List Nat) (before after : ClassFile) : Prop where
  minor : after.minor = before.minor
  major : after.major = before.major
  access : after.access = before.access
  thisClass : after.thisClass = before.thisClass
  superClass : after.superClass = before.superClass
  interfaces : after.interfaces = before.interfaces
  fields : after.fields = before.fields
  attributes : after.attributes = before.attributes
  methods : List.Forall₂ Member.AgreesOutsideCode before.methods after.methods
  untouched : ∀ index, index ∉ edited → after.methods[index]? = before.methods[index]?
  pool : ∀ index entry, before.pool.entryAt index = .ok entry →
    after.pool.entryAt index = .ok entry

section Reading

variable {before after : ClassFile} {edited : List Nat} {pool : ConstantPool}
  {bodies : MethodBody → MethodBody → Prop}

theorem AttributesSettled.widened {attributes : List Attribute}
    (h : AttributesSettled pool attributes) :
    attributes.map Attribute.widened = attributes :=
  (List.map_congr_left fun attr hmem ↦ (h.each attr hmem).widened).trans (List.map_id _)

theorem members_widened {members : List Member}
    (h : ∀ member ∈ members, AttributesSettled pool member.attributes) :
    members.map Member.widened = members := by
  refine (List.map_congr_left fun member hmem ↦ ?_).trans (List.map_id _)
  rw [Member.widened, (h member hmem).widened]
  rfl

theorem MethodBody.code_widened (body : MethodBody) : body.widened.code = body.code := by
  cases body
  rfl

/-- The body of a method that is read again. -/
theorem Member.body?_widened (member : Member) :
    member.widened.body? = member.body?.map MethodBody.widened := by
  obtain ⟨access, name, descriptor, attributes⟩ := member
  change (attributes.map Attribute.widened).findSome? Attribute.body? =
    (attributes.findSome? Attribute.body?).map MethodBody.widened
  induction attributes with
  | nil => rfl
  | cons attr rest ih =>
    obtain ⟨title, content⟩ := attr
    rw [List.map_cons, List.findSome?_cons, List.findSome?_cons]
    cases content with
    | code body => rfl
    | _ => exact ih

/-- A class that was read is in the form in which it is written. -/
theorem Settled.widened_eq {file : ClassFile} (h : file.Settled) : file.widened = file := by
  rw [ClassFile.widened, members_widened h.fieldAttributes, members_widened h.methodAttributes,
    h.attributes.widened]

theorem Attribute.Rebodied.agrees {old new : Attribute} (h : old.Rebodied bodies new) :
    old.widened.AgreesOutsideCode new.widened := by
  cases h with
  | same attr => exact ⟨rfl, Or.inl rfl⟩
  | body name hbodies => exact ⟨rfl, Or.inr ⟨rfl, rfl⟩⟩

theorem Member.Rebodied.agrees {old new : Member} (h : old.Rebodied bodies new) :
    old.widened.AgreesOutsideCode new.widened where
  access := h.access
  name := h.name
  descriptor := h.descriptor
  attributes := List.forall₂_map_left_iff.mpr (List.forall₂_map_right_iff.mpr
    (h.attributes.imp fun _ _ hattr ↦ hattr.agrees))

theorem Rebodied.agrees (h : Rebodied bodies before after)
    (hextends : after.pool.Extends before.pool)
    (huntouched : ∀ index, index ∉ edited → after.methods[index]? = before.methods[index]?) :
    AgreesOutside edited before.widened after.widened := by
  obtain ⟨hrest, hmethods⟩ := h
  rw [hrest]
  refine ⟨rfl, rfl, rfl, rfl, rfl, rfl, rfl, rfl, ?_, fun index hindex ↦ ?_,
    fun index entry ↦ ConstantPool.lasting_entryAt index _ _ entry hextends⟩
  · exact List.forall₂_map_left_iff.mpr (List.forall₂_map_right_iff.mpr
      (hmethods.imp fun _ _ hmember ↦ hmember.agrees))
  · change (after.methods.map Member.widened)[index]? = (before.methods.map Member.widened)[index]?
    rw [List.getElem?_map, huntouched index hindex, List.getElem?_map]

theorem Reworked.agrees (h : Reworked edited before after) (hbefore : before.Settled) :
    AgreesOutside edited before after.widened := by
  have hagrees := h.rebodied.agrees h.extending h.untouched
  rwa [hbefore.widened_eq] at hagrees

/-- The class is read again from what is written of it. -/
theorem Rebodied.parse (h : Rebodied bodies before after)
    (htold : ∀ {old new}, bodies old new → old.Told after.pool → new.Told after.pool)
    (hpool : after.pool.WellFormed) (hextends : after.pool.Extends before.pool)
    (hbefore : before.Settled) (hfits : after.Fits) :
    ClassFile.parse after.bytes = .ok after.widened := by
  have hread := Reader.reads_classFile (h.wellFormed htold hpool hextends hbefore hfits)
    (Nat.lt_succ_self after.bytes.length) []
  rw [List.append_nil] at hread
  exact except_bind_eq_ok.mpr ⟨_, hread, rfl⟩

theorem parse_of_reworked (h : Reworked edited before after) (hbefore : before.Settled)
    (hfits : after.Fits) : ClassFile.parse after.bytes = .ok after.widened :=
  h.rebodied.parse (fun hedits ↦ told_of_kept (kept_of_edited hedits)) h.pool h.extending hbefore
    hfits

/-- Whatever edits have left of the bodies, the class is read again as it is written, if and only if
the length of every text in its pool can be told. -/
theorem Rebodied.parse_eq_ok_iff (h : Rebodied BodyRevised before after)
    (hframed : after.pool.Framed) (hextends : after.pool.Extends before.pool)
    (hbefore : before.Settled) (hfits : after.Fits) :
    ClassFile.parse after.bytes = .ok after.widened ↔
      ∀ text, after.pool.Holds text → (ModifiedUtf8.encode text).length ≤ maxCount := by
  constructor
  · intro hparse
    have hpool : after.pool.WellFormed := (settled_of_parse hparse).pool
    exact hpool.texts
  · intro htexts
    exact h.parse BodyRevised.told (ConstantPool.wellFormed_iff.mpr ⟨hframed, htexts⟩) hextends
      hbefore hfits

/-- The class that is read again agrees with what it was. -/
theorem agrees_of_reworked (h : Reworked edited before after) (hbefore : before.Settled)
    (hfits : after.Fits) :
    ∃ again, parse after.bytes = .ok again ∧ AgreesOutside edited before again :=
  ⟨after.widened, parse_of_reworked h hbefore hfits, h.agrees hbefore⟩

end Reading

end ClassWeaver.ClassFile
