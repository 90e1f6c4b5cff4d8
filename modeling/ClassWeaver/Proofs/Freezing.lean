import ClassWeaver.Proofs.Unmodified

/-!
What programs do to a class that is frozen, and to its freezing.

A program is run together with a record of what it does to its class (`Program.trace`): every edit
with its outcome, every serialization with its bytes, and so on, each with the class that it leaves.
A unit that fails takes back all of its changes but one: a class that it froze or defrosted stays
that way (`left_of_failed`). Serializing freezes the class, and from then on nothing but defrosting
changes it: all edits are refused, units that fail put back what was there, and the same bytes are
handed out every time (`sealed_unless_defrosted`).
-/

set_option autoImplicit false
set_option relaxedAutoImplicit false

namespace ClassWeaver

open ClassFile Code

theorem ClassEdit.spares_changeFile {α : Type} {cls : EditableClass}
    (change : StateT ClassFile Id α) : (changeFile change).Spares cls := by
  have hends : (changeFile change).Ends cls fun _ after ↦ cls.Alike after :=
    ends_guarded (fun _ ↦ ⟨rfl, rfl, rfl⟩) fun _ ↦ ⟨rfl, rfl, rfl⟩
  exact hends

/-! ### Programs over a class -/

/-- What can be programmed through the operations of a class. -/
inductive Program : Type → Type 1
  | pure {α : Type} (answer : α) : Program α
  | throw {α : Type} (failure : Failure) : Program α
  | bind {α β : Type} (first : Program α) (next : α → Program β) : Program β
  | tryCatch {α : Type} (first : Program α) (handler : Failure → Program α) : Program α
  | current : Program EditableClass
  | changeFile {α : Type} (change : StateT ClassFile Id α) : Program α
  | editMethod (index : Nat) (change : Member → BodyEdit Id Unit) : Program Bool
  | serialize : Program Bytes
  | defrost : Program Unit
  | atomically {α : Type} (unit : Program α) : Program α

namespace Program

variable {α : Type}

/-- Something that is done to a class. -/
inductive Event where
  | looked
  | edited (outcome : Except Failure Unit)
  | serialized (bytes : Bytes)
  | defrosted
  /-- A unit failed, and was undone. -/
  | undone

/-- Something that was done, and the class that it left. -/
structure Moment where
  event : Event
  after : EditableClass

/-- The change of a class that the program stands for. -/
def edit : {α : Type} → Program α → ClassEdit Id α
  | _, pure answer => Pure.pure answer
  | _, throw failure => MonadExcept.throw failure
  | _, bind first next => first.edit >>= fun answer ↦ (next answer).edit
  | _, tryCatch first handler =>
    MonadExcept.tryCatch first.edit fun failure ↦ (handler failure).edit
  | _, current => ClassEdit.current
  | _, changeFile change => ClassEdit.changeFile change
  | _, editMethod index change => ClassEdit.editMethod index change
  | _, serialize => ClassEdit.serialize
  | _, defrost => ClassEdit.defrost
  | _, atomically unit => ClassEdit.atomically unit.edit

/-- How the program ends that starts with `cls`, and what it leaves of it. -/
def run (program : Program α) (cls : EditableClass) : Except Failure α × EditableClass :=
  program.edit.run.run cls

/-- The moment of an edit that ended as told. -/
def edited (ended : Except Failure α × EditableClass) : Moment :=
  ⟨.edited (ended.1.map fun _ ↦ ()), ended.2⟩

/-- What the program does to `cls`, from the first moment to the last. -/
def trace : {α : Type} → Program α → EditableClass → List Moment
  | _, pure _, _ | _, throw _, _ => []
  | _, bind first next, cls => first.trace cls ++
    match first.run cls with
    | (.ok answer, between) => (next answer).trace between
    | (.error _, _) => []
  | _, tryCatch first handler, cls => first.trace cls ++
    match first.run cls with
    | (.ok _, _) => []
    | (.error failure, between) => (handler failure).trace between
  | _, current, cls => [⟨.looked, cls⟩]
  | _, program@(changeFile _), cls | _, program@(editMethod _ _), cls => [edited (program.run cls)]
  | _, serialize, cls => [⟨.serialized cls.bytes, { cls with frozen := true }⟩]
  | _, defrost, cls => [⟨.defrosted, cls.defrost⟩]
  | _, atomically unit, cls => unit.trace cls ++
    match unit.run cls with
    | (.ok _, _) => []
    | (.error _, left) => [⟨.undone, { left with file := cls.file, modified := cls.modified }⟩]

section Run

variable {β : Type} (cls : EditableClass)

theorem run_bind (first : Program α) (next : α → Program β) :
    (first.bind next).run cls = match first.run cls with
      | (.ok answer, between) => (next answer).run between
      | (.error failure, between) => (.error failure, between) := by
  rw [run, edit, edit_bind_run]
  unfold run
  rcases first.edit.run.run cls with ⟨outcome, between⟩
  cases outcome <;> rfl

theorem run_tryCatch (first : Program α) (handler : Failure → Program α) :
    (first.tryCatch handler).run cls = match first.run cls with
      | (.ok answer, between) => (.ok answer, between)
      | (.error failure, between) => (handler failure).run between := by
  rw [run, edit, edit_tryCatch_run]
  unfold run
  rcases first.edit.run.run cls with ⟨outcome, between⟩
  cases outcome <;> rfl

theorem run_atomically (unit : Program α) :
    unit.atomically.run cls = match unit.run cls with
      | (.ok answer, after) => (.ok answer, after)
      | (.error failure, left) =>
        (.error failure, { left with file := cls.file, modified := cls.modified }) := by
  rw [run, edit, atomically_run_eq]
  rfl

end Run

/-! ### What a trace records -/

/-- What may come next, and what becomes of the class then. -/
inductive Happens (cls : EditableClass) : Moment → Prop
  | looked : Happens cls ⟨.looked, cls⟩
  | edited {outcome : Except Failure Unit} {after : EditableClass} (halike : cls.Alike after) :
    Happens cls ⟨.edited outcome, after⟩
  | serialized : Happens cls ⟨.serialized cls.bytes, { cls with frozen := true }⟩
  | defrosted : Happens cls ⟨.defrosted, cls.defrost⟩
  | undone (file : ClassFile) (modified : Bool) : Happens cls ⟨.undone, { cls with file, modified }⟩

/-- The moments lead from one class to another, each to the class that the next one begins with. -/
inductive Leads : EditableClass → List Moment → EditableClass → Prop
  | nil (cls : EditableClass) : Leads cls [] cls
  | cons {cls last : EditableClass} {moment : Moment} {rest : List Moment}
    (hfirst : Happens cls moment) (hrest : Leads moment.after rest last) :
    Leads cls (moment :: rest) last

section Leads

variable {cls between last : EditableClass} {moment : Moment} {moments later : List Moment}

theorem Happens.leads (h : Happens cls moment) : Leads cls [moment] moment.after :=
  .cons h (.nil _)

theorem Leads.append (h : Leads cls moments between) (hlater : Leads between later last) :
    Leads cls (moments ++ later) last := by
  induction h with
  | nil => exact hlater
  | cons hfirst _ ih => exact .cons hfirst (ih hlater)

/-- Every change is recorded. -/
theorem leads_trace (program : Program α) (cls : EditableClass) :
    Leads cls (program.trace cls) (program.run cls).2 := by
  induction program generalizing cls with
  | pure | throw => exact .nil cls
  | current => exact Happens.looked.leads
  | changeFile change => exact (Happens.edited (ClassEdit.spares_changeFile change)).leads
  | editMethod index change =>
    exact (Happens.edited (ClassEdit.spares_editMethod index change)).leads
  | serialize => exact Happens.serialized.leads
  | defrost => exact Happens.defrosted.leads
  | bind first next ihfirst ihnext =>
    have hfirst := ihfirst cls
    rw [run_bind, trace]
    rcases hran : first.run cls with ⟨outcome, between⟩
    rw [hran] at hfirst
    cases outcome with
    | ok answer => exact hfirst.append (ihnext answer between)
    | error failure => exact hfirst.append (.nil between)
  | tryCatch first handler ihfirst ihhandler =>
    have hfirst := ihfirst cls
    rw [run_tryCatch, trace]
    rcases hran : first.run cls with ⟨outcome, between⟩
    rw [hran] at hfirst
    cases outcome with
    | ok answer => exact hfirst.append (.nil between)
    | error failure => exact hfirst.append (ihhandler failure between)
  | atomically unit ih =>
    have hunit := ih cls
    rw [run_atomically, trace]
    rcases hran : unit.run cls with ⟨outcome, left⟩
    rw [hran] at hunit
    cases outcome with
    | ok answer => exact hunit.append (.nil left)
    | error failure => exact hunit.append (Happens.undone cls.file cls.modified).leads

end Leads

/-! ### Units that fail -/

/-- Whether a class is frozen after the event, if it was or was not before. -/
def Event.freezes (frozen : Bool) : Event → Bool
  | .serialized _ => true
  | .defrosted => false
  | .looked | .edited _ | .undone => frozen

/-- Whether a class is frozen after the moments: as the last of them left it that froze or defrosted
it. -/
def frozenAfter (frozen : Bool) (moments : List Moment) : Bool :=
  moments.foldl (fun frozen moment ↦ moment.event.freezes frozen) frozen

section Failed

variable {cls last : EditableClass} {moment : Moment} {moments : List Moment}

/-- But for its file and whether it counts as modified, a class only changes in whether it is
frozen. -/
theorem Happens.kept (h : Happens cls moment) : moment.after.name = cls.name ∧
    moment.after.source = cls.source ∧ moment.after.frozen = moment.event.freezes cls.frozen := by
  cases h with
  | edited halike => exact ⟨halike.name, halike.source, halike.frozen⟩
  | looked | serialized | defrosted | undone => exact ⟨rfl, rfl, rfl⟩

theorem Leads.kept (h : Leads cls moments last) : last.name = cls.name ∧
    last.source = cls.source ∧ last.frozen = frozenAfter cls.frozen moments := by
  induction h with
  | nil => exact ⟨rfl, rfl, rfl⟩
  | cons hfirst _ ih =>
    obtain ⟨hname, hsource, hfrozen⟩ := hfirst.kept
    obtain ⟨hnames, hsources, hafter⟩ := ih
    exact ⟨hnames.trans hname, hsources.trans hsource, hafter.trans (hfrozen ▸ rfl)⟩

/-- A unit that fails leaves the class as it was, except that it is frozen if the last thing that
the unit did about that was to serialize it, and not frozen if it was to defrost it. So the class
keeps its bytes, and is restored as a whole exactly if the unit leaves it as frozen as it was. -/
theorem left_of_failed {unit : Program α} {failure : Failure} {left : EditableClass}
    (hrun : unit.atomically.run cls = (.error failure, left)) :
    left = { cls with frozen := frozenAfter cls.frozen (unit.trace cls) } ∧
      left.bytes = cls.bytes ∧
      (left = cls ↔ frozenAfter cls.frozen (unit.trace cls) = cls.frozen) := by
  have hkept := (unit.leads_trace cls).kept
  rw [run_atomically] at hrun
  rcases hran : unit.run cls with ⟨outcome, made⟩
  rw [hran] at hkept hrun
  cases outcome with
  | ok answer => cases hrun
  | error cause =>
    cases hrun
    obtain ⟨hname, hsource, hfrozen⟩ := hkept
    rw [hname, hsource, hfrozen]
    refine ⟨rfl, rfl, fun h ↦ congrArg EditableClass.frozen h, fun h ↦ ?_⟩
    rw [h]

/-- A unit that defrosts a class, changes its file and fails. -/
def defrostAndFail : Program Unit :=
  .bind .defrost fun _ ↦ .bind (.changeFile (modify fun file ↦ { file with minor := 1 })) fun _ ↦
    .throw (.illegalState (.other "x"))

/-- The change of the file is undone, but the class is not frozen any more. -/
theorem left_of_failed_defrosted :
    ∃ left, defrostAndFail.atomically.run { ClassEdit.subject with frozen := true } =
        (.error (.illegalState (.other "x")), left) ∧
      left = ClassEdit.subject ∧ left.bytes = twoMethods.bytes := by
  have hrun : defrostAndFail.atomically.run { ClassEdit.subject with frozen := true } =
      (.error (.illegalState (.other "x")), ClassEdit.subject) := rfl
  obtain ⟨hleft, hbytes, -⟩ := left_of_failed hrun
  exact ⟨_, hrun, hleft, hbytes⟩

/-- A unit that serializes a class and fails. -/
def serializeAndFail : Program Unit :=
  .bind .serialize fun _ ↦ .throw (.illegalState (.other "x"))

/-- The class stays frozen, so that an edit is refused that it took before. -/
theorem not_restored_of_serialized :
    ∃ left, serializeAndFail.atomically.run ClassEdit.subject =
        (.error (.illegalState (.other "x")), left) ∧ left ≠ ClassEdit.subject ∧
      ((changeFile (Pure.pure ())).run ClassEdit.subject).1 = .ok () ∧
      ((changeFile (Pure.pure ())).run left).1 = .error (.illegalState (.frozen "A")) := by
  refine ⟨{ ClassEdit.subject with frozen := true }, rfl, fun hsame ↦ ?_, rfl, rfl⟩
  have hfrozen := congrArg EditableClass.frozen hsame
  exact Bool.false_ne_true hfrozen.symm

end Failed

/-! ### Frozen classes -/

/-- Nothing comes of the moment: the class is the same, an edit was refused because the class is
frozen, and the bytes that were handed out are those of the class. -/
structure Moment.Idle (cls : EditableClass) (moment : Moment) : Prop where
  after : moment.after = cls
  refused : ∀ outcome, moment.event = .edited outcome →
    outcome = .error (.illegalState (.frozen cls.name))
  same : ∀ bytes, moment.event = .serialized bytes → bytes = cls.bytes

section Frozen

variable {β : Type} {cls last : EditableClass} {moments : List Moment}

theorem Leads.eq_of_idle (h : Leads cls moments last)
    (hidle : ∀ moment ∈ moments, moment.Idle cls) : last = cls := by
  induction h with
  | nil => rfl
  | cons _ _ ih =>
    obtain ⟨hfirst, hrest⟩ := List.forall_mem_cons.mp hidle
    rw [hfirst.after] at ih
    exact ih hrest

theorem idle_refused {ended : Except Failure α × EditableClass}
    (h : ended = (.error (.illegalState (.frozen cls.name)), cls)) :
    (edited ended).Idle cls := by
  subst h
  refine ⟨rfl, fun outcome hevent ↦ ?_, nofun⟩
  cases hevent
  rfl

/-- Where nothing comes of what a program does first, the rest finds the class as it was. -/
theorem idle_append (first : Program β) (rest : Except Failure β × EditableClass → List Moment)
    (hfirst : (∀ moment ∈ first.trace cls, moment.event ≠ .defrosted) →
      ∀ moment ∈ first.trace cls, moment.Idle cls)
    (hrest : ∀ outcome, (∀ moment ∈ rest (outcome, cls), moment.event ≠ .defrosted) →
      ∀ moment ∈ rest (outcome, cls), moment.Idle cls)
    (hdefrost : ∀ moment ∈ first.trace cls ++ rest (first.run cls), moment.event ≠ .defrosted) :
    ∀ moment ∈ first.trace cls ++ rest (first.run cls), moment.Idle cls := by
  obtain ⟨hbefore, hbehind⟩ := List.forall_mem_append.mp hdefrost
  have hidle := hfirst hbefore
  have hsame := (first.leads_trace cls).eq_of_idle hidle
  refine List.forall_mem_append.mpr ⟨hidle, ?_⟩
  rcases hran : first.run cls with ⟨outcome, between⟩
  rw [hran] at hbehind hsame
  obtain rfl : between = cls := hsame
  exact hrest outcome hbehind

/-- Whatever a program does to a frozen class without defrosting it, nothing comes of it. -/
theorem idle_of_frozen (program : Program α) (hfrozen : cls.frozen = true)
    (hdefrost : ∀ moment ∈ program.trace cls, moment.event ≠ .defrosted) :
    ∀ moment ∈ program.trace cls, moment.Idle cls := by
  induction program with
  | pure | throw => exact nofun
  | current => exact List.forall_mem_singleton.mpr ⟨rfl, nofun, nofun⟩
  | changeFile change =>
    exact List.forall_mem_singleton.mpr (idle_refused (ClassEdit.guarded_run_of_frozen hfrozen _))
  | editMethod index change =>
    exact List.forall_mem_singleton.mpr (idle_refused (ClassEdit.guarded_run_of_frozen hfrozen _))
  | serialize =>
    refine List.forall_mem_singleton.mpr ⟨?_, nofun, fun bytes hevent ↦ ?_⟩
    · rw [← hfrozen]
    · cases hevent
      rfl
  | defrost => exact absurd rfl (hdefrost _ List.mem_cons_self)
  | bind first next ihfirst ihnext =>
    rw [trace] at hdefrost ⊢
    refine idle_append first (fun
      | (.ok answer, between) => (next answer).trace between
      | (.error _, _) => []) ihfirst (fun outcome hbehind ↦ ?_) hdefrost
    cases outcome with
    | ok answer => exact ihnext answer hbehind
    | error failure => exact nofun
  | tryCatch first handler ihfirst ihhandler =>
    rw [trace] at hdefrost ⊢
    refine idle_append first (fun
      | (.ok _, _) => []
      | (.error failure, between) => (handler failure).trace between) ihfirst
      (fun outcome hbehind ↦ ?_) hdefrost
    cases outcome with
    | ok answer => exact nofun
    | error failure => exact ihhandler failure hbehind
  | atomically unit ih =>
    rw [trace] at hdefrost ⊢
    refine idle_append unit (fun
      | (.ok _, _) => []
      | (.error _, left) => [⟨.undone, { left with file := cls.file, modified := cls.modified }⟩])
      ih (fun outcome _ ↦ ?_) hdefrost
    cases outcome with
    | ok answer => exact nofun
    | error failure => exact List.forall_mem_singleton.mpr ⟨rfl, nofun, nofun⟩

/-- Whatever a program does to a class that was serialized, unless it defrosts the class: the class
stays as it is, and frozen. Its file and whether it counts as modified are what they were when it
was serialized, all edits are refused, and whenever it is serialized the bytes are the same. -/
theorem sealed_unless_defrosted {bytes : Bytes} {later : EditableClass} {program : Program α}
    (hserialize : serialize.run cls = (.ok bytes, later))
    (hdefrost : ∀ moment ∈ program.trace later, moment.event ≠ .defrosted) :
    later.frozen = true ∧ later.file = cls.file ∧ later.modified = cls.modified ∧
      (program.run later).2 = later ∧
      ∀ moment ∈ program.trace later, moment.after = later ∧
        (∀ outcome, moment.event = .edited outcome →
          outcome = .error (.illegalState (.frozen later.name))) ∧
        ∀ again, moment.event = .serialized again → again = bytes := by
  cases hserialize
  have hidle := program.idle_of_frozen rfl hdefrost
  exact ⟨rfl, rfl, rfl, (program.leads_trace _).eq_of_idle hidle,
    fun moment hmem ↦ ⟨(hidle moment hmem).after, (hidle moment hmem).refused,
      (hidle moment hmem).same⟩⟩

/-- Changes the file in a unit, and serializes the class whether that fails or not. -/
def changeAndSerialize : Program Bytes :=
  .bind (.tryCatch (.atomically (.changeFile (modify fun file ↦ { file with minor := 1 })))
    fun _ ↦ .pure ()) fun _ ↦ .serialize

/-- A class that was serialized before refuses the change, and is as it was. -/
theorem sealed_unless_defrosted_again :
    ∃ later, serialize.run ClassEdit.subject = (.ok twoMethods.bytes, later) ∧
      (changeAndSerialize.run later).2 = later ∧ later.file = twoMethods := by
  have hserialize : serialize.run ClassEdit.subject =
      (.ok twoMethods.bytes, { ClassEdit.subject with frozen := true }) := rfl
  have hdefrost : ∀ moment ∈ changeAndSerialize.trace { ClassEdit.subject with frozen := true },
      moment.event ≠ .defrosted :=
    List.forall_mem_cons.mpr ⟨nofun, List.forall_mem_cons.mpr ⟨nofun,
      List.forall_mem_singleton.mpr nofun⟩⟩
  obtain ⟨-, hfile, -, hsame, -⟩ := sealed_unless_defrosted hserialize hdefrost
  exact ⟨_, hserialize, hsame, hfile⟩

end Frozen

end Program

end ClassWeaver
