import ClassWeaver.Agent.Loader
import ClassWeaver.Proofs.Attempt

/-!
What readings from a machine leave behind.

A native call that gives nothing may leave an exception, and one that gives an object leaves a
local reference to it. `Settles` says of a reading that, if it begins without an exception, it ends
without one and with the local references that there were before; nothing is left of it but the
record of its calls. `Acquires` says so of a reading that gets hold of one object, if it succeeds. A
reading that gets hold of an object, and then does something while it holds it, settles
(`Acquires.settles`).
-/

set_option autoImplicit false
set_option relaxedAutoImplicit false

namespace ClassWeaver.Vm

/-! ### Runs of native calls -/

namespace Machine

variable {machine : Machine} {made : List Call} {number : Nat}

/-- The machine after calls of which nothing is left but their record, up to the number of the next
reference. -/
def afterCalls (machine : Machine) (made : List Call) (number : Nat) : Machine :=
  { machine with calls := made ++ machine.calls, nextRef := number }

/-- The machine with one more local reference. -/
def holding (machine : Machine) (ref : Ref) : Machine :=
  { machine with locals := ref :: machine.locals }

/-- The call leaves an exception, if it is made now. -/
def raises (machine : Machine) (native : NativeCall) : Bool :=
  machine.script.fate machine.calls (.native native) = .raise && native.mayRaise

theorem afterCalls_afterCalls (later : List Call) (next : Nat) :
    (machine.afterCalls made number).afterCalls later next =
      machine.afterCalls (later ++ made) next := by
  rw [afterCalls, afterCalls, afterCalls, List.append_assoc]

theorem eq_object_of_target? {ref : Ref} {object : Object}
    (h : machine.target? ref = some object) : object = ref.object := by
  rw [target?] at h
  split at h
  · cases h
  · exact (Option.some.inj h).symm

theorem cleared_of_not_pending (h : machine.pending = false) :
    { machine with pending := false } = machine := by
  rw [← h]

end Machine

namespace Native

variable {ε α : Type} {machine : Machine} {native : NativeCall}

theorem call_of_answer (h : machine.script.fate machine.calls (.native native) = .answer) :
    (call native).run machine =
      (true, machine.afterCalls [.native native] machine.nextRef) := by
  have htaken : (Machine.take (.native native)).run machine =
      (machine.script.fate machine.calls (.native native),
        machine.afterCalls [.native native] machine.nextRef) := rfl
  rw [call, StateT.run_bind, htaken, h]
  rfl

theorem call_of_ne_answer (h : machine.script.fate machine.calls (.native native) ≠ .answer) :
    (call native).run machine = (false, { machine.afterCalls [.native native] machine.nextRef with
      pending := machine.pending || machine.raises native }) := by
  have htaken : (Machine.take (.native native)).run machine =
      (machine.script.fate machine.calls (.native native),
        machine.afterCalls [.native native] machine.nextRef) := rfl
  rw [call, StateT.run_bind, htaken, Machine.raises]
  revert h
  generalize machine.script.fate machine.calls (.native native) = fate
  intro h
  cases fate with
  | answer => exact absurd rfl h
  | raise => rfl
  | null | error code =>
    rw [decide_eq_false (by rintro ⟨⟩), Bool.false_and, Bool.or_false]
    rfl

/-- A call that leaves no exception only adds itself to the record. -/
theorem call_of_mayRaise_eq_false (h : native.mayRaise = false) (machine : Machine) :
    ((call native).run machine).2 = machine.afterCalls [.native native] machine.nextRef := by
  by_cases hanswer : machine.script.fate machine.calls (.native native) = .answer
  · rw [call_of_answer hanswer]
  · rw [call_of_ne_answer hanswer, Machine.raises, h, Bool.and_false, Bool.or_false]
    rfl

/-- Clearing the exception that may have been left brings the machine back. -/
theorem takeException_run (pending : Bool) (h : machine.pending = false) :
    takeException.run { machine with pending } = (pending, machine) :=
  congrArg (Prod.mk pending) (Machine.cleared_of_not_pending h)

theorem callVoidMethod_run (ref : Ref) (method : Method) (machine : Machine) : ∃ pending,
    (callVoidMethod ref method).run machine =
      ((), { machine.afterCalls [.native (.callVoidMethod ref.object method)] machine.nextRef with
        pending }) := by
  by_cases hanswer :
    machine.script.fate machine.calls (.native (.callVoidMethod ref.object method)) = .answer
  · refine ⟨machine.pending, ?_⟩
    rw [callVoidMethod, StateT.run_bind, call_of_answer hanswer]
    rfl
  · refine ⟨machine.pending || machine.raises (.callVoidMethod ref.object method), ?_⟩
    rw [callVoidMethod, StateT.run_bind, call_of_ne_answer hanswer]
    rfl

/-- All bytes of an array are read with two calls, which leave no exception. -/
theorem getByteArray_run (array : Ref) (machine : Machine) : ∃ bytes count,
    (getByteArray array).run machine =
      (bytes, machine.afterCalls [.native (.getArrayRegion 0 count), .native .getArrayLength]
        machine.nextRef) := by
  have hlength : ((getArrayLength array).run machine).2 =
      machine.afterCalls [.native .getArrayLength] machine.nextRef :=
    call_of_mayRaise_eq_false rfl machine
  rcases hread : (getArrayLength array).run machine with ⟨length, between⟩
  rw [hread] at hlength
  obtain rfl : between = _ := hlength
  have hrest : (getByteArray array).run machine = (getArrayRegion array length.toNat).run
      (machine.afterCalls [.native .getArrayLength] machine.nextRef) := by
    rw [getByteArray, StateT.run_bind, hread]
    rfl
  rw [hrest]
  exact ⟨_, length.toNat, Prod.ext rfl (call_of_mayRaise_eq_false rfl _)⟩

theorem callFor_of_answer {object : Object}
    (h : machine.script.fate machine.calls (.native native) = .answer) :
    (callFor native (some object)).run machine =
      (some ⟨machine.nextRef, object⟩,
        (machine.afterCalls [.native native] (machine.nextRef + 1)).holding
          ⟨machine.nextRef, object⟩) := by
  rw [callFor, StateT.run_bind, call_of_answer h]
  rfl

theorem callFor_of_refused {object : Option Object}
    (h : machine.script.fate machine.calls (.native native) = .answer → object = none) :
    ∃ pending, (callFor native object).run machine =
        (none, { machine.afterCalls [.native native] machine.nextRef with pending }) ∧
      (native.mayRaise = false → pending = machine.pending) := by
  by_cases hanswer : machine.script.fate machine.calls (.native native) = .answer
  · obtain rfl := h hanswer
    refine ⟨machine.pending, ?_, fun _ ↦ rfl⟩
    rw [callFor, StateT.run_bind, call_of_answer hanswer]
    rfl
  · refine ⟨machine.pending || machine.raises native, ?_, fun hraise ↦ ?_⟩
    · unfold callFor
      rw [StateT.run_bind, call_of_ne_answer hanswer]
      rfl
    · rw [Machine.raises, hraise, Bool.and_false, Bool.or_false]

/-- A call gives nothing, and may leave an exception, or it is answered and gives its object, which
is held by a new local reference. -/
theorem callFor_cases (native : NativeCall) (object : Option Object) (machine : Machine) :
    ((machine.script.fate machine.calls (.native native) = .answer → object = none) ∧
      ∃ pending, (callFor native object).run machine =
          (none, { machine.afterCalls [.native native] machine.nextRef with pending }) ∧
        (native.mayRaise = false → pending = machine.pending)) ∨
    ∃ given, object = some given ∧
      machine.script.fate machine.calls (.native native) = .answer ∧
      (callFor native object).run machine = (some ⟨machine.nextRef, given⟩,
        (machine.afterCalls [.native native] (machine.nextRef + 1)).holding
          ⟨machine.nextRef, given⟩) := by
  by_cases hrefused : machine.script.fate machine.calls (.native native) = .answer → object = none
  · exact .inl ⟨hrefused, callFor_of_refused hrefused⟩
  · obtain ⟨hanswer, hobject⟩ := Classical.not_imp.mp hrefused
    obtain ⟨given, rfl⟩ := Option.ne_none_iff_exists'.mp hobject
    exact .inr ⟨given, rfl, hanswer, callFor_of_answer hanswer⟩

theorem withLocal_run (ref : Ref) (body : ExceptT ε (StateM Machine) α) :
    (withLocal ref body).run.run machine = ((body.run.run machine).1,
      { (body.run.run machine).2 with locals := (body.run.run machine).2.locals.erase ref }) :=
  rfl

/-- If what is done with a reference leaves it on top of the others, it is gone afterwards. -/
theorem withLocal_of_holding {ref : Ref} {body : ExceptT ε (StateM Machine) α}
    {outcome : Except ε α} {after : Machine}
    (h : body.run.run machine = (outcome, after.holding ref)) :
    (withLocal ref body).run.run machine = (outcome, after) := by
  have herased : (ref :: after.locals).erase ref = after.locals := List.erase_cons_head ..
  rw [withLocal_run, h]
  change (_, { after with locals := (ref :: after.locals).erase ref }) = _
  rw [herased]

end Native

end ClassWeaver.Vm

namespace ClassWeaver.Agent

open Vm Machine Reading

variable {α β : Type} {allowed : Call → Prop} {machine : Machine}

/-! ### Readings that leave nothing behind -/

/-- If the reading begins without an exception, it ends without one, and nothing is left of it but
allowed calls. -/
def Settles (allowed : Call → Prop) (work : Reading α) : Prop :=
  ∀ machine, machine.pending = false → ∃ outcome made number,
    work.run.run machine = (outcome, machine.afterCalls made number) ∧ ∀ call ∈ made, allowed call

/-- Like `Settles`, but if the reading succeeds, its answer is held by one more local reference. -/
def Acquires (allowed : Call → Prop) (work : Reading Ref) : Prop :=
  ∀ machine, machine.pending = false → ∃ made number, (∀ call ∈ made, allowed call) ∧
    (work.run.run machine = (.error ⟨⟩, machine.afterCalls made number) ∨
      ∃ ref, work.run.run machine = (.ok ref, (machine.afterCalls made number).holding ref))

/-- The calls give nothing, and may leave an exception, or they give an object, which is held by one
more local reference. -/
def Fetches (allowed : Call → Prop) (work : StateM Machine (Option Ref)) : Prop :=
  ∀ machine, ∃ made number, (∀ call ∈ made, allowed call) ∧
    ((∃ pending, work.run machine = (none, { machine.afterCalls made number with pending })) ∨
      ∃ ref, work.run machine = (some ref, (machine.afterCalls made number).holding ref))

theorem lift_bind_run (work : StateM Machine β) (next : β → Reading α) (machine : Machine) :
    (liftM work >>= next).run.run machine =
      (next (work.run machine).1).run.run (work.run machine).2 :=
  rfl

theorem abandon_run (pending : Bool) (h : machine.pending = false) :
    (abandon : Reading α).run.run { machine with pending } = (.error ⟨⟩, machine) :=
  congrArg (Prod.mk _) (cleared_of_not_pending h)

theorem abandon_bind_run {next : β → Reading α} (pending : Bool) (h : machine.pending = false) :
    (abandon >>= next).run.run { machine with pending } = (.error ⟨⟩, machine) := by
  rw [edit_bind_run, abandon_run pending h]

section UnlessRaised

variable {work : StateM Machine (Option Ref)} {after : Machine}

theorem unlessRaised_run : (unlessRaised work).run.run machine =
    (if (work.run machine).2.pending then .error ⟨⟩ else .ok (work.run machine).1,
      { (work.run machine).2 with pending := false }) := by
  rw [unlessRaised, lift_bind_run, lift_bind_run]
  change ((if (work.run machine).2.pending then _ else _ : Reading (Option Ref)).run.run _) = _
  split <;> rfl

theorem unlessRaised_of_some {ref : Ref} (h : work.run machine = (some ref, after))
    (hafter : after.pending = false) :
    (unlessRaised work).run.run machine = (.ok (some ref), after) := by
  rw [unlessRaised_run, h]
  dsimp only
  rw [hafter, cleared_of_not_pending hafter]
  rfl

theorem unlessRaised_of_none {pending : Bool}
    (h : work.run machine = (none, { after with pending })) (hafter : after.pending = false) :
    ∃ outcome, (unlessRaised work).run.run machine = (outcome, after) ∧
      outcome.toOption.join = none := by
  refine ⟨if pending then .error ⟨⟩ else .ok none, ?_, by cases pending <;> rfl⟩
  rw [unlessRaised_run, h]
  exact congrArg (Prod.mk _) (cleared_of_not_pending hafter)

end UnlessRaised

theorem Settles.bind {work : Reading β} {next : β → Reading α} (h : Settles allowed work)
    (hnext : ∀ answer, Settles allowed (next answer)) : Settles allowed (work >>= next) := by
  intro machine hpending
  obtain ⟨outcome, made, number, hrun, hmade⟩ := h machine hpending
  rw [edit_bind_run, hrun]
  cases outcome with
  | error fault => exact ⟨.error fault, made, number, rfl, hmade⟩
  | ok answer =>
    obtain ⟨outcome, later, next, hnext, hlater⟩ :=
      hnext answer (machine.afterCalls made number) hpending
    refine ⟨outcome, later ++ made, next, ?_, List.forall_mem_append.mpr ⟨hlater, hmade⟩⟩
    exact hnext.trans (congrArg _ (afterCalls_afterCalls later next))

/-- What was got hold of is let go of. -/
theorem Acquires.settles {work : Reading Ref} {body : Ref → Reading α} (h : Acquires allowed work)
    (hbody : ∀ ref, Settles allowed (body ref)) :
    Settles allowed (work >>= fun ref ↦ Native.withLocal ref (body ref)) := by
  intro machine hpending
  obtain ⟨made, number, hmade, hrun | ⟨ref, hrun⟩⟩ := h machine hpending
  · exact ⟨.error ⟨⟩, made, number, by rw [edit_bind_run, hrun], hmade⟩
  · obtain ⟨outcome, later, next, hbody, hlater⟩ :=
      hbody ref ((machine.afterCalls made number).holding ref) hpending
    refine ⟨outcome, later ++ made, next, ?_, List.forall_mem_append.mpr ⟨hlater, hmade⟩⟩
    rw [edit_bind_run, hrun]
    dsimp only
    rw [← afterCalls_afterCalls]
    exact Native.withLocal_of_holding hbody

theorem fetches_callFor {native : NativeCall} (h : allowed (.native native))
    (object : Option Object) : Fetches allowed (Native.callFor native object) := by
  intro machine
  have hmade : ∀ call ∈ [Call.native native], allowed call := List.forall_mem_singleton.mpr h
  obtain ⟨-, pending, hrun, -⟩ | ⟨given, -, -, hrun⟩ := Native.callFor_cases native object machine
  · exact ⟨_, _, hmade, .inl ⟨pending, hrun⟩⟩
  · exact ⟨_, _, hmade, .inr ⟨_, hrun⟩⟩

/-- A call that is given a text is not made at all if there is no such text. -/
theorem fetches_ofText {native : Bytes → NativeCall} {object : Bytes → Option Object}
    (h : ∀ content, allowed (.native (native content))) (text : String) :
    Fetches allowed (match Native.textBytes? text with
      | none => return none
      | some content => Native.callFor (native content) (object content)) := by
  intro machine
  split
  · exact ⟨[], machine.nextRef, List.forall_mem_nil _, .inl ⟨machine.pending, rfl⟩⟩
  · exact fetches_callFor (h _) _ machine

section Fetches

variable {work : StateM Machine (Option Ref)} (h : Fetches allowed work)

include h

theorem Fetches.orAbandon : Acquires allowed (orAbandon work) := by
  intro machine hpending
  obtain ⟨made, number, hmade, ⟨pending, hrun⟩ | ⟨ref, hrun⟩⟩ := h machine
  · refine ⟨made, number, hmade, .inl ?_⟩
    rw [Reading.orAbandon, lift_bind_run, hrun]
    exact abandon_run pending hpending
  · refine ⟨made, number, hmade, .inr ⟨ref, ?_⟩⟩
    rw [Reading.orAbandon, lift_bind_run, hrun]
    rfl

theorem Fetches.orFail : Acquires allowed (orFail work) := by
  intro machine hpending
  obtain ⟨made, number, hmade, ⟨pending, hrun⟩ | ⟨ref, hrun⟩⟩ := h machine
  · refine ⟨made, number, hmade, .inl ?_⟩
    obtain ⟨outcome, hended, hnone⟩ := unlessRaised_of_none hrun hpending
    rw [Reading.orFail, edit_bind_run, hended]
    cases outcome with
    | error fault => rfl
    | ok answer =>
      obtain rfl : answer = none := hnone
      rfl
  · refine ⟨made, number, hmade, .inr ⟨ref, ?_⟩⟩
    rw [Reading.orFail, edit_bind_run, unlessRaised_of_some hrun hpending]
    rfl

end Fetches

end ClassWeaver.Agent
