import ClassWeaver.Proofs.Transformer.Skipping

/-!
What an unmodified class is.

A class is programmed through its operations (`Composed`). An edit of a method that fails, or that
records nothing, does not count as a modification, whatever it did to the pool or to the tables of a
body before. So an unmodified class agrees with the class that its bytes define but for its pool and
the bodies of its methods. It agrees in everything if edits of methods stand in units that fail as a
whole, and add nothing to the pool unless they record something (`asRead_of_unmodified`).
-/

set_option autoImplicit false
set_option relaxedAutoImplicit false

namespace ClassWeaver

open ClassFile Code

/-! ### Classes up to the bodies of methods -/

def MethodBody.blank : MethodBody :=
  ⟨0, 0, [], [], []⟩

/-- The class without its pool and without what the bodies of its methods hold. -/
def ClassFile.outline (file : ClassFile) : ClassFile :=
  { file with pool := .empty, methods := file.methods.map (·.setBody MethodBody.blank) }

theorem ClassFile.replaceBody_replaceBody (body later : MethodBody) (attributes : List Attribute) :
    replaceBody later (replaceBody body attributes) = replaceBody later attributes := by
  induction attributes with
  | nil => rfl
  | cons attr rest ih =>
    cases hbody : attr.body?.isSome with
    | true =>
      have hreplaced : ({ attr with content := .code body } : Attribute).body?.isSome = true := rfl
      rw [replaceBody, if_pos hbody, replaceBody, if_pos hreplaced, replaceBody, if_pos hbody]
    | false => simp [replaceBody, hbody, ih]

theorem EditableClass.outline_setMethodBody (cls : EditableClass) (index : Nat)
    (body : MethodBody) : (cls.setMethodBody index body).file.outline = cls.file.outline := by
  have hmethods : (cls.file.methods.modify index (·.setBody body)).map
      (·.setBody MethodBody.blank) = cls.file.methods.map (·.setBody MethodBody.blank) := by
    apply List.ext_getElem?
    intro place
    rw [List.getElem?_map, List.getElem?_map, List.getElem?_modify]
    split
    · cases cls.file.methods[place]? with
      | none => rfl
      | some method =>
        exact congrArg (fun attributes ↦ some { method with attributes })
          (replaceBody_replaceBody body MethodBody.blank method.attributes)
    · cases cls.file.methods[place]? <;> rfl
  rw [setMethodBody, ClassFile.outline, hmethods]
  rfl

/-! ### Classes that come of others -/

/-- The later class goes back to the earlier one. If it counts as unmodified, so did the earlier
one, and the file of that leads to its own. -/
structure EditableClass.Follows (leads : ClassFile → ClassFile → Prop)
    (after before : EditableClass) : Prop where
  name : after.name = before.name
  source : after.source = before.source
  unmodified : after.modified = false → before.modified = false ∧ leads before.file after.file

/-- Files that agree but for the pool and for what the bodies of methods hold. -/
abbrev ClassFile.SameOutline : ClassFile → ClassFile → Prop :=
  Order.Preimage ClassFile.outline Eq

section Follows

variable {leads : ClassFile → ClassFile → Prop} [IsPreorder ClassFile leads]
  {before between after : EditableClass}

theorem EditableClass.Follows.refl (cls : EditableClass) : cls.Follows leads cls :=
  ⟨rfl, rfl, fun h ↦ ⟨h, refl_of leads _⟩⟩

theorem EditableClass.Follows.trans (h : between.Follows leads before)
    (hlater : after.Follows leads between) : after.Follows leads before where
  name := hlater.name.trans h.name
  source := hlater.source.trans h.source
  unmodified hmodified := by
    obtain ⟨hbetween, hafter⟩ := hlater.unmodified hmodified
    obtain ⟨hbefore, hleads⟩ := h.unmodified hbetween
    exact ⟨hbefore, trans_of leads hleads hafter⟩

/-- A class that got its old file back. -/
theorem EditableClass.Follows.undone {other : ClassFile → ClassFile → Prop}
    (h : after.Follows other before) :
    { after with file := before.file, modified := before.modified }.Follows leads before :=
  ⟨h.name, h.source, fun hmodified ↦ ⟨hmodified, refl_of leads _⟩⟩

omit [IsPreorder ClassFile leads] in
/-- A class that is marked as modified may have any file. -/
theorem EditableClass.Follows.marked (h : after.Follows leads before) (file : ClassFile) :
    { after with file, modified := true }.Follows leads before :=
  ⟨h.name, h.source, nofun⟩

/-- The body of a method is no part of the outline. -/
theorem EditableClass.Follows.setMethodBody (h : after.Follows ClassFile.SameOutline before)
    (index : Nat) (body : MethodBody) :
    (after.setMethodBody index body).Follows ClassFile.SameOutline before := by
  refine ⟨h.name, h.source, fun hmodified ↦ ?_⟩
  obtain ⟨hbefore, hsame⟩ := h.unmodified hmodified
  exact ⟨hbefore, Eq.trans hsame (outline_setMethodBody after index body).symm⟩

end Follows

/-! ### What operations keep -/

namespace ClassEdit

variable {α β : Type} {cls : EditableClass} {leads : ClassFile → ClassFile → Prop}

/-- Whatever comes of it, what the edit leaves goes back to the class. -/
def Keeps (leads : ClassFile → ClassFile → Prop) (edit : ClassEdit Id α) : Prop :=
  ∀ cls, edit.Ends cls fun _ after ↦ after.Follows leads cls

section Keeps

variable {edit : ClassEdit Id α}

theorem Keeps.follows {outcome : Except Failure α} {after : EditableClass} (h : edit.Keeps leads)
    (hrun : edit.run.run cls = (outcome, after)) : after.Follows leads cls := by
  have hafter := h cls
  rwa [Ends, hrun] at hafter

variable [IsPreorder ClassFile leads]

theorem Keeps.bind {next : α → ClassEdit Id β} (h : edit.Keeps leads)
    (hnext : ∀ answer, (next answer).Keeps leads) : (edit >>= next).Keeps leads := by
  refine fun cls ↦ ends_bind ?_
  have hbetween := h cls
  unfold Ends at hbetween ⊢
  cases (edit.run.run cls).1 with
  | error failure => exact hbetween
  | ok answer => exact hbetween.trans (hnext answer _)

theorem Keeps.tryCatch {handler : Failure → ClassEdit Id α} (h : edit.Keeps leads)
    (hhandler : ∀ failure, (handler failure).Keeps leads) :
    Keeps leads (tryCatch edit handler) := by
  refine fun cls ↦ ends_tryCatch ?_
  have hbetween := h cls
  unfold Ends at hbetween ⊢
  cases (edit.run.run cls).1 with
  | ok answer => exact hbetween
  | error failure => exact hbetween.trans (hhandler failure _)

theorem keeps_of_eq (h : ∀ cls, (edit.run.run cls).2 = cls) : edit.Keeps leads := by
  intro cls
  unfold Ends
  rw [h cls]
  exact .refl cls

theorem keeps_serialize : (serialize : ClassEdit Id Bytes).Keeps leads :=
  fun _ ↦ ⟨rfl, rfl, fun h ↦ ⟨h, refl_of leads _⟩⟩

theorem keeps_defrost : (defrost : ClassEdit Id Unit).Keeps leads :=
  fun _ ↦ ⟨rfl, rfl, fun h ↦ ⟨h, refl_of leads _⟩⟩

theorem keeps_changeFile (change : StateT ClassFile Id α) : (changeFile change).Keeps leads := by
  refine fun cls ↦ ends_guarded (fun _ ↦ .refl cls) fun _ ↦ ?_
  exact (EditableClass.Follows.refl cls).marked _

theorem Keeps.atomically (h : edit.Keeps leads) : (atomically edit).Keeps leads := by
  refine fun cls ↦ ends_atomically ?_
  have hafter := h cls
  unfold Ends at hafter ⊢
  cases (edit.run.run cls).1 with
  | ok answer => exact hafter
  | error failure => exact hafter.undone

/-- The pool and the bodies of methods are no part of the outline. -/
theorem keeps_editMethod (index : Nat) (change : Member → BodyEdit Id Unit) :
    (editMethod index change).Keeps ClassFile.SameOutline := by
  intro cls
  have hextended (pool : ConstantPool) :
      EditableClass.Follows ClassFile.SameOutline { cls with file := { cls.file with pool } } cls :=
    ⟨rfl, rfl, fun hmodified ↦ ⟨hmodified, rfl⟩⟩
  refine (touches_editMethod index change cls).imp fun _ after htouched ↦ ?_
  cases htouched with
  | untouched => exact .refl cls
  | extended pool => exact hextended pool
  | @moved pool _ _ new => exact (hextended pool).setMethodBody index new
  | marked pool body => exact ((hextended pool).setMethodBody index body).marked _

instance : IsPreorder ClassFile (Rebodied BodyDisturbed) where
  refl := .refl
  trans _ _ _ h hlater := h.trans BodyDisturbed.trans hlater

/-- Unless a class is marked, its bodies have only been disturbed. -/
theorem keepsBodies_editMethod (index : Nat) (change : Member → BodyEdit Id Unit) :
    (editMethod index change).Keeps (Rebodied BodyDisturbed) := by
  intro cls
  refine (touches_editMethod index change cls).imp fun _ after htouched ↦ ?_
  have hextended (pool : ConstantPool) : Rebodied BodyDisturbed cls.file { cls.file with pool } :=
    (Rebodied.refl cls.file).withPool pool
  cases htouched with
  | untouched => exact .refl cls
  | extended pool => exact ⟨rfl, rfl, fun hmodified ↦ ⟨hmodified, hextended pool⟩⟩
  | moved pool hmethod hbody hnew =>
    refine ⟨rfl, rfl, fun hmodified ↦ ⟨hmodified, (hextended pool).setBody hmethod hbody ?_⟩⟩
    rintro start (rfl | hstart)
    · exact hnew
    · exact hstart.trans hnew
  | marked pool body => exact ⟨rfl, rfl, nofun⟩

end Keeps

/-! ### Programs -/

/-- Where in a program edits of methods and handlers of failures may stand. -/
inductive Discipline where
  /-- Both may stand anywhere. -/
  | free
  /-- Edits of methods stand in units, which are made as a whole or not at all. -/
  | guarded
  /-- Inside of a unit, nothing goes on behind a failure. -/
  | unit

/-- The discipline inside of a unit. -/
def Discipline.inside : Discipline → Discipline
  | free => free
  | _ => unit

/-- An edit of a body that leaves the pool alone unless it records something. -/
def Frugal (change : Member → BodyEdit Id Unit) : Prop :=
  ∀ (method : Member) (editor later : Editor), (change method).run.run editor = (.ok (), later) →
    later.isModified = false → later.pool = editor.pool

/-- What can be programmed through the operations of a class. -/
inductive Composed : Discipline → ∀ {α : Type}, ClassEdit Id α → Prop
  | pure {discipline : Discipline} {α : Type} (answer : α) : Composed discipline (pure answer)
  | throw {discipline : Discipline} {α : Type} (failure : Failure) :
    Composed discipline (throw failure : ClassEdit Id α)
  | bind {discipline : Discipline} {α β : Type} {first : ClassEdit Id α}
      {next : α → ClassEdit Id β} (hfirst : Composed discipline first)
      (hnext : ∀ answer, Composed discipline (next answer)) : Composed discipline (first >>= next)
  | tryCatch {discipline : Discipline} {α : Type} {first : ClassEdit Id α}
      {handler : Failure → ClassEdit Id α} (hplace : discipline ≠ .unit)
      (hfirst : Composed discipline first)
      (hhandler : ∀ failure, Composed discipline (handler failure)) :
    Composed discipline (tryCatch first handler)
  | current {discipline : Discipline} : Composed discipline current
  | changeFile {discipline : Discipline} {α : Type} (change : StateT ClassFile Id α) :
    Composed discipline (changeFile change)
  | editMethod (index : Nat) (change : Member → BodyEdit Id Unit) :
    Composed .free (editMethod index change)
  | editInUnit (index : Nat) {change : Member → BodyEdit Id Unit} (hfrugal : Frugal change) :
    Composed .unit (ClassEdit.editMethod index change)
  | serialize {discipline : Discipline} : Composed discipline serialize
  | defrost {discipline : Discipline} : Composed discipline defrost
  | atomically {discipline : Discipline} {α : Type} {edit : ClassEdit Id α}
      (hedit : Composed discipline.inside edit) : Composed discipline (atomically edit)

section Programs

variable {discipline : Discipline} {program : ClassEdit Id α}

/-- A program keeps what edits of methods keep: whatever it does otherwise marks the class. -/
theorem Composed.keeps {leads : ClassFile → ClassFile → Prop} [IsPreorder ClassFile leads]
    (h : Composed discipline program)
    (hmethods : ∀ index change, (ClassEdit.editMethod index change).Keeps leads) :
    program.Keeps leads := by
  induction h with
  | pure answer => exact keeps_of_eq fun _ ↦ rfl
  | throw failure => exact keeps_of_eq fun _ ↦ rfl
  | bind _ _ hfirst hnext => exact hfirst.bind hnext
  | tryCatch _ _ _ hfirst hhandler => exact hfirst.tryCatch hhandler
  | current => exact keeps_of_eq fun _ ↦ rfl
  | changeFile change => exact keeps_changeFile change
  | editMethod index change => exact hmethods index change
  | editInUnit index _ => exact hmethods index _
  | serialize => exact keeps_serialize
  | defrost => exact keeps_defrost
  | atomically _ hedit => exact hedit.atomically

/-- Whatever a program does, an unmodified class keeps its outline. -/
theorem Composed.keeps_outline (h : Composed discipline program) :
    program.Keeps ClassFile.SameOutline :=
  h.keeps keeps_editMethod

/-- Whatever a program does, an unmodified class keeps the code of its methods. -/
theorem Composed.keeps_bodies (h : Composed discipline program) :
    program.Keeps (Rebodied BodyDisturbed) :=
  h.keeps keepsBodies_editMethod

/-- An edit that succeeds is marked, or has changed nothing. -/
theorem follows_of_editMethod {index : Nat} {change : Member → BodyEdit Id Unit} {answer : Bool}
    {after : EditableClass} (hfrugal : Frugal change)
    (hrun : (editMethod index change).run.run cls = (.ok answer, after)) :
    after.Follows Eq cls := by
  cases (editMethod_eq_ok_iff.mp hrun).2 with
  | bodiless _ _ => exact .refl cls
  | unmodified _ _ heditor hchange hmodified =>
    rw [hfrugal _ _ _ hchange hmodified, Editor.pool_of_ofBody heditor]
    exact .refl cls
  | modified _ _ _ _ _ _ => exact ⟨rfl, rfl, nofun⟩

/-- A unit that is made as a whole changes nothing unless it marks the class. -/
theorem Composed.follows_of_unit {answer : α} {after : EditableClass} (h : Composed .unit program)
    (hrun : program.run.run cls = (.ok answer, after)) : after.Follows Eq cls := by
  generalize hdiscipline : Discipline.unit = discipline at h
  induction h generalizing cls after with
  | pure | current | serialize | defrost =>
    cases hrun
    exact ⟨rfl, rfl, fun h ↦ ⟨h, rfl⟩⟩
  | throw => cases hrun
  | bind _ _ hfirst hnext =>
    obtain ⟨value, between, hbetween, hafter⟩ := edit_bind_eq_ok.mp hrun
    exact (hfirst hbetween hdiscipline).trans (hnext value hafter hdiscipline)
  | tryCatch hplace => exact absurd hdiscipline.symm hplace
  | changeFile change => exact (keeps_changeFile change).follows hrun
  | editMethod => cases hdiscipline
  | editInUnit index hfrugal => exact follows_of_editMethod hfrugal hrun
  | @atomically _ _ edit _ hedit =>
    subst hdiscipline
    have hmade : (ClassEdit.atomically edit).Ends cls fun outcome after ↦
        outcome = .ok answer → after.Follows Eq cls := by
      refine ends_atomically ?_
      unfold Ends
      rcases hinner : edit.run.run cls with ⟨outcome, inner⟩
      cases outcome with
      | ok value =>
        intro hvalue
        exact hedit (hinner.trans (congrArg (·, inner) hvalue)) rfl
      | error failure => nofun
    unfold Ends at hmade
    rw [hrun] at hmade
    exact hmade rfl

/-- What a unit that fails has done is undone, and what it has done otherwise is marked. -/
theorem Composed.keeps_file (h : Composed .guarded program) : program.Keeps Eq := by
  generalize hdiscipline : Discipline.guarded = discipline at h
  induction h with
  | pure answer => exact keeps_of_eq fun _ ↦ rfl
  | throw failure => exact keeps_of_eq fun _ ↦ rfl
  | bind _ _ hfirst hnext => exact (hfirst hdiscipline).bind fun answer ↦ hnext answer hdiscipline
  | tryCatch _ _ _ hfirst hhandler =>
    exact (hfirst hdiscipline).tryCatch fun failure ↦ hhandler failure hdiscipline
  | current => exact keeps_of_eq fun _ ↦ rfl
  | changeFile change => exact keeps_changeFile change
  | editMethod => cases hdiscipline
  | editInUnit => cases hdiscipline
  | serialize => exact keeps_serialize
  | defrost => exact keeps_defrost
  | @atomically _ _ edit hedit _ =>
    subst hdiscipline
    refine fun cls ↦ ends_atomically ?_
    unfold Ends
    rcases hinner : edit.run.run cls with ⟨outcome, inner⟩
    cases outcome with
    | ok answer => exact hedit.follows_of_unit hinner
    | error failure => exact (hedit.keeps_outline.follows hinner).undone

end Programs

/-! ### Classes as they were read -/

/-- However a program over a class that was read ends, and whatever failed on the way: a class that
counts as unmodified serializes to the bytes it was read from. Outside the pool and the bodies of
methods it has what these bytes define, and it has all of it if edits of methods stand in units. -/
theorem asRead_of_unmodified {discipline : Discipline} {program : ClassEdit Id α} {name : String}
    {input : Bytes} {after : EditableClass} {outcome : Except Failure α}
    (hparse : EditableClass.parse name input = .ok cls) (hcomposed : Composed discipline program)
    (hrun : program.run.run cls = (outcome, after)) (hmodified : after.modified = false) :
    after.name = name ∧ after.source = input ∧ after.bytes = input ∧
      ∃ file, ClassFile.parse input = .ok file ∧ after.file.outline = file.outline ∧
        (discipline = .guarded → after.file = file) := by
  obtain ⟨-, -, hsource, hfile⟩ := EditableClass.of_parse_eq_ok hparse
  obtain ⟨hname, -⟩ := EditableClass.declared_of_parse_eq_ok hparse
  have hkept := hcomposed.keeps_outline.follows hrun
  have hinput : after.source = input := hkept.source.trans hsource
  have houtline : after.file.outline = cls.file.outline := (hkept.unmodified hmodified).2.symm
  refine ⟨hkept.name.trans hname, hinput, ?_, cls.file, hfile, houtline, ?_⟩
  · rw [EditableClass.bytes, hmodified]
    exact hinput
  · rintro rfl
    exact ((hcomposed.keeps_file.follows hrun).unmodified hmodified).2.symm

/-- Adds a text to the pool and gives up. -/
def addTextAndFail : Member → BodyEdit Id Unit := fun _ ↦ do
  let _ ← BodyEdit.extendPool (ConstantPool.Addition.text "x").edit
  throw (.danglingOffset 0)

theorem frugal_addTextAndFail : Frugal addTextAndFail := by
  intro method editor later hrun
  obtain ⟨_, between, -, hthrown⟩ := edit_bind_eq_ok.mp hrun
  cases hthrown

/-- An edit of a body that fails has still extended the pool. -/
theorem editMethod_run_of_failed {index : Nat} {change : Member → BodyEdit Id Unit}
    {method : Member} {body : MethodBody} {editor later : Editor} {fault : Fault}
    (hfrozen : cls.frozen = false) (hmethod : cls.file.methods[index]? = some method)
    (hbody : method.body? = some body) (heditor : Editor.ofBody cls.file.pool body = .ok editor)
    (hrun : (change method).run.run editor = (.error fault, later)) :
    (editMethod index change).run.run cls = (.error (.uncompilable cls.name fault),
      { cls with file := { cls.file with pool := later.pool } }) := by
  have hends : (editMethod index change).Ends cls fun outcome after ↦
      outcome = .error (.uncompilable cls.name fault) ∧
        after = { cls with file := { cls.file with pool := later.pool } } := by
    refine ends_guarded (fun h ↦ absurd (hfrozen.symm.trans h) Bool.false_ne_true)
      fun _ ↦ ends_current_bind ?_
    simp only [hmethod, hbody, heditor]
    refine ends_lift_bind ?_
    rw [hrun]
    exact ends_set_bind ⟨rfl, rfl⟩
  exact Prod.ext hends.1 hends.2

section Example

/-- A class with a method that is edited below. -/
def subject : EditableClass :=
  ⟨"A", twoMethods, twoMethods.bytes, false, false⟩

theorem parse_subject : EditableClass.parse "A" twoMethods.bytes = .ok subject :=
  rfl

theorem addTextAndFail_subject :
    (editMethod 0 addTextAndFail).run.run subject =
      (.error (.uncompilable "A" (.danglingOffset 0)),
        { subject with
          file := { twoMethods with
            pool := ⟨twoMethods.pool.slots.push (some (.utf8 "x"))⟩ } }) := by
  have hadded : (ConstantPool.Addition.text "x").edit.run.run twoMethods.pool =
      (.ok 6, ⟨twoMethods.pool.slots.push (some (.utf8 "x"))⟩) :=
    ConstantPool.intern_of_not_mem (by decide) (by decide) rfl
  have heditor : Editor.ofBody twoMethods.pool ⟨0, 1, [0xb1], [], []⟩ =
      .ok ⟨twoMethods.pool, #[⟨0xb1, .none, some 0⟩], ∅, ∅, 0⟩ := rfl
  have hmethod : subject.file.methods[0]? = some ⟨0, 4, 5, [⟨3, .code ⟨0, 1, [0xb1], [], []⟩⟩]⟩ :=
    rfl
  have hfailed (method : Member) : (addTextAndFail method).run.run
      ⟨twoMethods.pool, #[⟨0xb1, .none, some 0⟩], ∅, ∅, 0⟩ = (.error (.danglingOffset 0),
        ⟨⟨twoMethods.pool.slots.push (some (.utf8 "x"))⟩, #[⟨0xb1, .none, some 0⟩], ∅, ∅, 0⟩) := by
    rw [addTextAndFail, edit_bind_run, BodyEdit.extendPool_run hadded]
    rfl
  exact editMethod_run_of_failed rfl hmethod rfl heditor (hfailed _)

/-- A unit that fails has not added the text that its edit adds. -/
theorem asRead_of_unmodified_undone :
    ∃ outcome after file, EditableClass.parse "A" twoMethods.bytes = .ok subject ∧
      (tryCatch (atomically (editMethod 0 addTextAndFail)) fun _ ↦ pure false).run.run subject =
        ((outcome, after) : Except Failure Bool × EditableClass) ∧
      ClassFile.parse twoMethods.bytes = .ok file ∧ after.file = file := by
  have hunit : Composed .unit (editMethod 0 addTextAndFail) := .editInUnit 0 frugal_addTextAndFail
  have hcomposed : Composed .guarded (tryCatch (atomically (editMethod 0 addTextAndFail))
      fun _ ↦ pure false) :=
    .tryCatch nofun (.atomically hunit) fun _ ↦ .pure false
  have hrun : (tryCatch (atomically (editMethod 0 addTextAndFail))
      fun _ ↦ pure false : ClassEdit Id Bool).run.run subject = (.ok false, subject) := by
    rw [edit_tryCatch_run, atomically_run (spares_editMethod 0 _), addTextAndFail_subject]
    rfl
  obtain ⟨-, -, -, file, hfile, -, hexact⟩ :=
    asRead_of_unmodified parse_subject hcomposed hrun rfl
  exact ⟨_, _, file, parse_subject, hrun, hfile, hexact rfl⟩

/-- Outside of units the text stays, and the class still counts as unmodified. -/
theorem not_asRead_of_failed :
    ∃ after file, EditableClass.parse "A" twoMethods.bytes = .ok subject ∧
      (editMethod 0 addTextAndFail).run.run subject =
        (.error (.uncompilable "A" (.danglingOffset 0)), after) ∧
      after.modified = false ∧ ClassFile.parse twoMethods.bytes = .ok file ∧ after.file ≠ file := by
  refine ⟨_, twoMethods, parse_subject, addTextAndFail_subject, rfl, rfl, fun heq ↦ ?_⟩
  have hsizes := congrArg (·.pool.slots.size) heq
  revert hsizes
  decide

end Example

end ClassEdit

end ClassWeaver
