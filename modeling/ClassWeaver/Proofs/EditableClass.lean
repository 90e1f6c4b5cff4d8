import ClassWeaver.Proofs.ClassFile.Framing
import ClassWeaver.Proofs.Workspace.Lookup

/-!
What editing methods leaves of a class.

A call that succeeds has changed nothing but the body of its method and the pool, which has grown
(`MethodEdited`). So after any number of calls the class that is serialized can be read, and agrees
with the one that was read first outside the bodies that the calls changed
(`agrees_of_editMethods`).
-/

set_option autoImplicit false
set_option relaxedAutoImplicit false

namespace ClassWeaver

open ClassFile Code

/-! ### How changes of a class end -/

namespace ClassEdit

variable {α β : Type} {cls : EditableClass}

/-- On this class, the edit ends as `post` says. -/
def Ends (edit : ClassEdit Id α) (cls : EditableClass)
    (post : Except Failure α → EditableClass → Prop) : Prop :=
  post (edit.run.run cls).1 (edit.run.run cls).2

section Rules

variable {edit : ClassEdit Id α} {post : Except Failure α → EditableClass → Prop}

theorem Ends.imp {weaker : Except Failure α → EditableClass → Prop} (h : edit.Ends cls post)
    (himp : ∀ outcome after, post outcome after → weaker outcome after) : edit.Ends cls weaker :=
  himp _ _ h

theorem ends_bind {next : α → ClassEdit Id β} {post : Except Failure β → EditableClass → Prop}
    (h : edit.Ends cls fun outcome between ↦
      match outcome with
      | .ok answer => (next answer).Ends between post
      | .error failure => post (.error failure) between) :
    (edit >>= next).Ends cls post := by
  unfold Ends at h ⊢
  rw [edit_bind_run]
  rcases hran : edit.run.run cls with ⟨outcome, between⟩
  rw [hran] at h
  cases outcome with
  | ok answer => exact h
  | error failure => exact h

theorem ends_tryCatch {handler : Failure → ClassEdit Id α}
    (h : edit.Ends cls fun outcome between ↦
      match outcome with
      | .ok answer => post (.ok answer) between
      | .error failure => (handler failure).Ends between post) :
    Ends (tryCatch edit handler) cls post := by
  unfold Ends at h ⊢
  rw [edit_tryCatch_run]
  rcases hran : edit.run.run cls with ⟨outcome, between⟩
  rw [hran] at h
  cases outcome with
  | ok answer => exact h
  | error failure => exact h

theorem ends_lift_bind {query : Id β} {next : β → ClassEdit Id α} (h : (next query).Ends cls post) :
    ((liftM query : ClassEdit Id β) >>= next).Ends cls post :=
  ends_bind h

theorem ends_set_bind {next : PUnit → ClassEdit Id α} {after : EditableClass}
    (h : (next ⟨⟩).Ends after post) : ((set after : ClassEdit Id PUnit) >>= next).Ends cls post :=
  ends_bind h

/-- The class itself is read first. -/
theorem ends_current_bind {next : EditableClass → ClassEdit Id α} (h : (next cls).Ends cls post) :
    (current >>= next).Ends cls post :=
  ends_bind h

/-- What is done behind the guard is done to classes that are open to edits. -/
theorem ends_guarded {next : Unit → ClassEdit Id α}
    (hfrozen : cls.frozen = true → post (.error (.illegalState (.frozen cls.name))) cls)
    (h : cls.frozen = false → (next ()).Ends cls post) :
    ((requireThawed : ClassEdit Id Unit) >>= next).Ends cls post := by
  obtain ⟨name, file, source, frozen, modified⟩ := cls
  cases frozen with
  | true => exact hfrozen rfl
  | false => exact ends_bind (h rfl)

/-- What a unit has done to the file is undone if it fails. -/
theorem ends_atomically
    (h : edit.Ends cls fun outcome after ↦
      match outcome with
      | .ok answer => post (.ok answer) after
      | .error failure =>
        post (.error failure) { after with file := cls.file, modified := cls.modified }) :
    (atomically edit).Ends cls post :=
  ends_bind (ends_tryCatch h)

end Rules

/-- What an edit of a method may leave of a class, whether it succeeds or not. -/
inductive Touched (index : Nat) (cls : EditableClass) : EditableClass → Prop
  | untouched : Touched index cls cls
  | extended (pool : ConstantPool) : Touched index cls { cls with file := { cls.file with pool } }
  | moved (pool : ConstantPool) {method : Member} {body new : MethodBody}
      (hmethod : cls.file.methods[index]? = some method) (hbody : method.body? = some body)
      (hnew : BodyDisturbed body new) :
    Touched index cls
      (({ cls with file := { cls.file with pool } } : EditableClass).setMethodBody index new)
  | marked (pool : ConstantPool) (body : MethodBody) :
    Touched index cls
      { ({ cls with file := { cls.file with pool } } : EditableClass).setMethodBody index body with
        modified := true }

theorem touches_editMethod (index : Nat) (change : Member → BodyEdit Id Unit)
    (cls : EditableClass) :
    (editMethod index change).Ends cls fun _ after ↦ Touched index cls after := by
  refine ends_guarded (fun _ ↦ .untouched) fun _ ↦ ends_current_bind ?_
  split
  · exact .untouched
  · rename_i method hmethod
    split
    · exact .untouched
    · rename_i body hbody
      split
      · exact .untouched
      · refine ends_lift_bind ?_
        generalize (change _).run.run _ = ended
        obtain ⟨outcome, later⟩ := ended
        -- From here on, classes are set that have another file.
        refine ends_set_bind ?_
        cases outcome with
        | error fault => exact .extended later.pool
        | ok _ =>
          dsimp only
          split
          · rename_i hmodified
            refine ends_set_bind ?_
            split
            · rename_i fault hfailure
              have hstopped : (later.apply body).failure ≠ none := by
                rw [hfailure]
                exact Option.some_ne_none fault
              exact .moved later.pool hmethod hbody (disturbed_of_apply body hmodified hstopped)
            · exact ends_set_bind (.marked later.pool (later.apply body).value)
          · exact .extended later.pool

end ClassEdit

/-! ### One call -/

/-- What an edit of a method that succeeds answers, and what it makes of the class. -/
inductive MethodEdited (index : Nat) (edit : Member → BodyEdit Id Unit) (cls : EditableClass) :
    Bool → EditableClass → Prop
  | bodiless {method : Member} (hmethod : cls.file.methods[index]? = some method)
      (hbody : method.body? = none) : MethodEdited index edit cls false cls
  | unmodified {method : Member} {body : MethodBody} {editor later : Editor}
      (hmethod : cls.file.methods[index]? = some method) (hbody : method.body? = some body)
      (heditor : Editor.ofBody cls.file.pool body = .ok editor)
      (hrun : (edit method).run.run editor = (.ok (), later))
      (hmodified : later.isModified = false) :
      MethodEdited index edit cls false { cls with file := { cls.file with pool := later.pool } }
  | modified {method : Member} {body : MethodBody} {editor later : Editor}
      (hmethod : cls.file.methods[index]? = some method) (hbody : method.body? = some body)
      (heditor : Editor.ofBody cls.file.pool body = .ok editor)
      (hrun : (edit method).run.run editor = (.ok (), later))
      (hmodified : later.isModified = true) (happlied : (later.apply body).failure = none) :
      MethodEdited index edit cls true
        { ({ cls with file := { cls.file with pool := later.pool } } : EditableClass).setMethodBody
            index (later.apply body).value with modified := true }

section Calls

variable {cls after : EditableClass} {index : Nat} {edit : Member → BodyEdit Id Unit}
  {answer : Bool}

theorem requireThawed_eq_ok_iff :
    (ClassEdit.requireThawed : ClassEdit Id Unit).run.run cls = (.ok (), after) ↔
      cls.frozen = false ∧ after = cls := by
  obtain ⟨name, file, source, frozen, modified⟩ := cls
  cases frozen with
  | false =>
    constructor
    · intro h
      cases h
      exact ⟨rfl, rfl⟩
    · rintro ⟨-, rfl⟩
      rfl
  | true =>
    constructor
    · intro h
      cases h
    · rintro ⟨hfrozen, -⟩
      cases hfrozen

/-- An edit that answers has found the class thawed. -/
theorem methodEdited_of_editMethod
    (hwhole : (ClassEdit.editMethod index edit).run.run cls = (.ok answer, after)) :
    cls.frozen = false ∧ MethodEdited index edit cls answer after := by
  obtain ⟨_, thawed, hthawed, hrest⟩ := edit_bind_eq_ok.mp hwhole
  obtain ⟨hfrozen, rfl⟩ := requireThawed_eq_ok_iff.mp hthawed
  refine ⟨hfrozen, ?_⟩
  obtain ⟨_, current, hcurrent, hedit⟩ := edit_bind_eq_ok.mp hrest
  cases hcurrent
  cases hmethod : thawed.file.methods[index]? with
  | none =>
    simp only [hmethod] at hedit
    cases hedit
  | some method =>
    cases hbody : method.body? with
    | none =>
      simp only [hmethod, hbody] at hedit
      cases hedit
      exact .bodiless hmethod hbody
    | some body =>
      cases heditor : Editor.ofBody thawed.file.pool body with
      | error fault =>
        simp only [hmethod, hbody, heditor] at hedit
        cases hedit
      | ok editor =>
        simp only [hmethod, hbody, heditor] at hedit
        obtain ⟨ended, between, hended, hextend⟩ := edit_bind_eq_ok.mp hedit
        obtain ⟨rfl, rfl⟩ : ended = (edit method).run.run editor ∧ between = thawed := by
          cases hended
          exact ⟨rfl, rfl⟩
        rcases hrun : (edit method).run.run editor with ⟨outcome, later⟩
        rw [hrun] at hextend
        obtain ⟨_, extended, hextended, happly⟩ := edit_bind_eq_ok.mp hextend
        cases hextended
        cases outcome with
        | error fault => cases happly
        | ok result =>
          by_cases hmodified : later.isModified = true
          · simp only [hmodified, if_true] at happly
            obtain ⟨_, applied, happlied, hset⟩ := edit_bind_eq_ok.mp happly
            cases happlied
            cases hfailure : (later.apply body).failure with
            | some fault =>
              rw [hfailure] at hset
              cases hset
            | none =>
              rw [hfailure] at hset
              cases hset
              exact .modified hmethod hbody heditor hrun hmodified hfailure
          · rw [Bool.not_eq_true] at hmodified
            simp only [hmodified, Bool.false_eq_true, if_false] at happly
            cases happly
            exact .unmodified hmethod hbody heditor hrun hmodified

/-- A thawed class is edited. -/
theorem MethodEdited.editMethod_run (hedited : MethodEdited index edit cls answer after)
    (hfrozen : cls.frozen = false) :
    (ClassEdit.editMethod index edit).run.run cls = (.ok answer, after) := by
  refine edit_bind_eq_ok.mpr ⟨(), cls, requireThawed_eq_ok_iff.mpr ⟨hfrozen, rfl⟩,
    edit_bind_eq_ok.mpr ⟨cls, cls, rfl, ?_⟩⟩
  cases hedited with
  | bodiless hmethod hbody =>
    simp only [hmethod, hbody]
    rfl
  | unmodified hmethod hbody heditor hrun hmodified =>
    simp only [hmethod, hbody, heditor]
    refine edit_bind_eq_ok.mpr
      ⟨_, cls, congrArg (fun ended ↦ (Except.ok ended, cls)) hrun, ?_⟩
    simp only [hmodified]
    rfl
  | modified hmethod hbody heditor hrun hmodified happlied =>
    simp only [hmethod, hbody, heditor]
    refine edit_bind_eq_ok.mpr
      ⟨_, cls, congrArg (fun ended ↦ (Except.ok ended, cls)) hrun, ?_⟩
    simp only [hmodified, happlied]
    rfl

theorem editMethod_eq_ok_iff :
    (ClassEdit.editMethod index edit).run.run cls = (.ok answer, after) ↔
      cls.frozen = false ∧ MethodEdited index edit cls answer after :=
  ⟨methodEdited_of_editMethod, fun h ↦ h.2.editMethod_run h.1⟩

end Calls

/-! ### Many calls -/

/-- A call that edits the body of the method with a number. -/
structure MethodCall where
  index : Nat
  edit : Member → BodyEdit Id Unit

/-- The call does with its editor only what an editor allows. -/
def MethodCall.Allowed (call : MethodCall) : Prop :=
  ∀ method, (call.edit method).Allowed

/-- Edits methods one after the other, and tells which calls have changed one. -/
def editMethods (calls : List MethodCall) : ClassEdit Id (List Bool) :=
  calls.mapM fun call ↦ ClassEdit.editMethod call.index call.edit

/-- Edits methods and serializes the class. -/
def editAndSerialize (calls : List MethodCall) : ClassEdit Id (List Bool × Bytes) := do
  let answers ← editMethods calls
  let bytes ← ClassEdit.serialize
  return (answers, bytes)

/-- The numbers of the methods that were changed. -/
def changedMethods (calls : List MethodCall) (answers : List Bool) : List Nat :=
  ((calls.zip answers).filter (·.2)).map (·.1.index)

section Sessions

variable {cls after : EditableClass} {file : ClassFile} {edited : List Nat} {call : MethodCall}
  {calls : List MethodCall} {answer : Bool} {answers : List Bool}

/-- The editor starts with the pool of the class, and what becomes of it becomes of that pool. -/
theorem MethodEdited.reworked (hallowed : call.Allowed) (h : Reworked edited file cls.file)
    (hedited : MethodEdited call.index call.edit cls answer after) :
    Reworked (edited ++ if answer then [call.index] else []) file after.file ∧
      after.modified = (cls.modified || answer) := by
  have hpool {body : MethodBody} {editor later : Editor} {method : Member}
      (heditor : Editor.ofBody cls.file.pool body = .ok editor)
      (hrun : (call.edit method).run.run editor = (.ok (), later)) :
      editor.Becomes later ∧ Reworked edited file { cls.file with pool := later.pool } := by
    have hbecomes := hallowed method editor
    rw [hrun] at hbecomes
    have hsame := Editor.pool_of_ofBody heditor
    obtain ⟨hwellFormed, hextends⟩ := hbecomes.pool (hsame ▸ h.pool)
    exact ⟨hbecomes, h.withPool hwellFormed (hsame ▸ hextends)⟩
  cases hedited with
  | bodiless hmethod hbody =>
    rw [if_neg Bool.false_ne_true, List.append_nil, Bool.or_false]
    exact ⟨h, rfl⟩
  | unmodified hmethod hbody heditor hrun hmodified =>
    rw [if_neg Bool.false_ne_true, List.append_nil, Bool.or_false]
    exact ⟨(hpool heditor hrun).2, rfl⟩
  | modified hmethod hbody heditor hrun hmodified happlied =>
    obtain ⟨hbecomes, hreworked⟩ := hpool heditor hrun
    rw [if_pos rfl, Bool.or_true]
    exact ⟨hreworked.setBody hmethod hbody
      (edited_of_apply heditor hbecomes hmodified happlied), rfl⟩

theorem reworked_of_editMethods (hallowed : ∀ call ∈ calls, call.Allowed)
    (h : Reworked edited file cls.file)
    (hrun : (editMethods calls).run.run cls = (.ok answers, after)) :
    Reworked (edited ++ changedMethods calls answers) file after.file ∧
      after.modified = (cls.modified || answers.any id) := by
  induction calls generalizing cls edited answers with
  | nil =>
    obtain ⟨rfl, rfl⟩ : answers = [] ∧ after = cls := by
      cases hrun
      exact ⟨rfl, rfl⟩
    rw [changedMethods, List.zip_nil_left, List.filter_nil, List.map_nil, List.append_nil,
      List.any_nil, Bool.or_false]
    exact ⟨h, rfl⟩
  | cons call rest ih =>
    obtain ⟨hcall, hrest⟩ := List.forall_mem_cons.mp hallowed
    rw [editMethods, List.mapM_cons] at hrun
    obtain ⟨answer, between, hfirst, hrun⟩ := edit_bind_eq_ok.mp hrun
    obtain ⟨others, last, hothers, hrun⟩ := edit_bind_eq_ok.mp hrun
    cases hrun
    obtain ⟨hreworked, hmodified⟩ := (editMethod_eq_ok_iff.mp hfirst).2.reworked hcall h
    obtain ⟨hall, hlast⟩ := ih hrest hreworked hothers
    have hchanged : changedMethods (call :: rest) (answer :: others) =
        (if answer then [call.index] else []) ++ changedMethods rest others := by
      cases answer <;> rfl
    rw [hchanged, ← List.append_assoc, List.any_cons, hlast, hmodified, Bool.or_assoc]
    exact ⟨hall, rfl⟩

/-- Once calls have changed a method, the class that is serialized is read again, and agrees with
the one that was read first: versions, flags, names, interfaces, fields, attributes of the class,
headers of the methods and their attributes other than code are the same, and so is all of every
method that no call has changed; and every index of the pool leads to what it led to. For that the
lengths of the bodies have to fit into four bytes, as they do if the class was not so large that
bodies could outgrow them. -/
theorem agrees_of_editMethods {name : String} {input bytes : Bytes}
    (hparse : EditableClass.parse name input = .ok cls) (hallowed : ∀ call ∈ calls, call.Allowed)
    (hrun : (editAndSerialize calls).run.run cls = (.ok (answers, bytes), after))
    (hchanged : true ∈ answers) :
    (after.file.Fits → ∃ file again, ClassFile.parse input = .ok file ∧
      ClassFile.parse bytes = .ok again ∧
        AgreesOutside (changedMethods calls answers) file again) ∧
      (input.length + maxGrowth < 4294967296 → after.file.Fits) := by
  obtain ⟨-, -, -, hfile⟩ := EditableClass.of_parse_eq_ok hparse
  have hsettled := settled_of_parse hfile
  obtain ⟨_, between, hcalls, hrun⟩ := edit_bind_eq_ok.mp hrun
  obtain ⟨_, frozen, hserialized, hrun⟩ := edit_bind_eq_ok.mp hrun
  cases hserialized
  cases hrun
  obtain ⟨hreworked, hmodified⟩ :=
    reworked_of_editMethods hallowed (.refl hsettled.pool) hcalls
  rw [List.nil_append] at hreworked
  have hbytes : between.bytes = between.file.bytes := by
    have hany : answers.any id = true := List.any_eq_true.mpr ⟨true, hchanged, rfl⟩
    rw [hany, Bool.or_true] at hmodified
    rw [EditableClass.bytes, if_pos hmodified]
  refine ⟨fun hfits ↦ ?_, fun hlength ↦ ?_⟩
  · obtain ⟨again, hagain, hagrees⟩ := agrees_of_reworked hreworked hsettled hfits
    exact ⟨cls.file, again, hfile, hbytes ▸ hagain, hagrees⟩
  · have hmethods := length_methods_le hfile
    exact hreworked.fits hsettled (by omega)

/-- A class with a method that returns at once and one that has no body. -/
def twoMethods : ClassFile where
  minor := 0
  major := 52
  pool := ⟨#[none, some (.utf8 "A"), some (.classRef 1), some (.utf8 "Code"), some (.utf8 "m"),
    some (.utf8 "()V")]⟩
  access := 0
  thisClass := 2
  superClass := 0
  interfaces := []
  fields := []
  methods := [⟨0, 4, 5, [⟨3, .code ⟨0, 1, [0xb1], [], []⟩⟩]⟩, ⟨0x0400, 1, 5, []⟩]
  attributes := []

/-- Adds a text to the pool and puts a `nop` in front of the first instruction. -/
def addNop : Member → BodyEdit Id Unit := fun _ ↦ do
  let _ ← BodyEdit.extendPool (ConstantPool.Addition.text "x").edit
  BodyEdit.record (Edit.insertBefore 0 [.plain .nop]).record

/-- The method that has no body is left as it was, and so is the class around both. -/
theorem agrees_of_editMethods_twoMethods :
    ∃ file again cls after bytes, EditableClass.parse "A" twoMethods.bytes = .ok cls ∧
      (editAndSerialize [⟨0, addNop⟩, ⟨1, addNop⟩]).run.run cls =
        (.ok ([true, false], bytes), after) ∧
      ClassFile.parse twoMethods.bytes = .ok file ∧ ClassFile.parse bytes = .ok again ∧
      AgreesOutside [0] file again := by
  have hallowed : ∀ call ∈ [MethodCall.mk 0 addNop, MethodCall.mk 1 addNop], call.Allowed := by
    have hshort : (ConstantPool.Addition.text "x").Short :=
      List.forall_mem_singleton.mpr (by decide)
    have hedit (method : Member) : (addNop method).Allowed :=
      (BodyEdit.allowed_extendPool hshort).bind fun _ ↦ BodyEdit.allowed_record _
    exact List.forall_mem_cons.mpr ⟨hedit, List.forall_mem_singleton.mpr hedit⟩
  have hparse : EditableClass.parse "A" twoMethods.bytes =
      .ok ⟨"A", twoMethods, twoMethods.bytes, false, false⟩ := rfl
  have hadded : (ConstantPool.Addition.text "x").edit.run.run twoMethods.pool = (.ok 6, _) :=
    ConstantPool.intern_of_not_mem (by decide) (by decide) rfl
  have heditor : Editor.ofBody twoMethods.pool ⟨0, 1, [0xb1], [], []⟩ =
      .ok ⟨twoMethods.pool, #[⟨0xb1, .none, some 0⟩], ∅, ∅, 0⟩ := rfl
  have hran (method : Member) : (addNop method).run.run
      ⟨twoMethods.pool, #[⟨0xb1, .none, some 0⟩], ∅, ∅, 0⟩ = (.ok (), _) :=
    edit_bind_eq_ok.mpr ⟨6, _, BodyEdit.extendPool_run hadded, rfl⟩
  have hmethod : twoMethods.methods[0]? = some ⟨0, 4, 5, [⟨3, .code ⟨0, 1, [0xb1], [], []⟩⟩]⟩ := rfl
  have hfirst := editMethod_eq_ok_iff.mpr ⟨show EditableClass.frozen
    ⟨"A", twoMethods, twoMethods.bytes, false, false⟩ = false from rfl,
      .modified hmethod rfl heditor (hran _) rfl rfl⟩
  have hsecond (cls : EditableClass) (hfrozen : cls.frozen = false)
      (hbodiless : cls.file.methods[1]? = some ⟨0x0400, 1, 5, []⟩) :
      (ClassEdit.editMethod 1 addNop).run.run cls = (.ok false, cls) :=
    editMethod_eq_ok_iff.mpr ⟨hfrozen, .bodiless hbodiless rfl⟩
  have hrun : (editAndSerialize [⟨0, addNop⟩, ⟨1, addNop⟩]).run.run
      ⟨"A", twoMethods, twoMethods.bytes, false, false⟩ = (.ok ([true, false], _), _) :=
    edit_bind_eq_ok.mpr ⟨[true, false], _, edit_bind_eq_ok.mpr ⟨true, _, hfirst,
      edit_bind_eq_ok.mpr ⟨false, _, hsecond _ rfl rfl, rfl⟩⟩, rfl⟩
  obtain ⟨hagrees, hfits⟩ := agrees_of_editMethods hparse hallowed hrun List.mem_cons_self
  obtain ⟨file, again, hfile, hagain, hagrees⟩ := hagrees (hfits (by decide))
  exact ⟨file, again, _, _, _, hparse, hrun, hfile, hagain, hagrees⟩

end Sessions

end ClassWeaver
