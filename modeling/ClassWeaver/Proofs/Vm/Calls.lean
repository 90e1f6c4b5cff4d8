import ClassWeaver.Agent.Loader
import ClassWeaver.Proofs.Attempt
import ClassWeaver.Vm.Tool

/-!
Which calls work on a machine makes, and what calls that go well give.

`Makes` says of work that all the calls it makes are of a kind, wherever it starts. It follows the
ways in which work is put together, so that the proof of a fact about a procedure has the shape of
the procedure.
-/

set_option autoImplicit false
set_option relaxedAutoImplicit false

namespace ClassWeaver.Vm

open Text.Utf8

variable {ε α β : Type}

/-! ### Work that makes calls -/

/-- Wherever the work starts, the calls that it makes are allowed. -/
def Makes (allowed : Call → Prop) (work : StateM Machine α) : Prop :=
  ∀ machine, ∃ made, (work.run machine).2.calls = made ++ machine.calls ∧
    ∀ call ∈ made, allowed call

section Makes

variable {allowed : Call → Prop}

theorem makes_of_same {work : StateM Machine α}
    (h : ∀ machine, (work.run machine).2.calls = machine.calls) : Makes allowed work :=
  fun machine ↦ ⟨[], h machine, nofun⟩

theorem makes_pure (answer : α) : Makes allowed (pure answer) :=
  makes_of_same fun _ ↦ rfl

theorem Makes.bind {work : StateM Machine α} {next : α → StateM Machine β}
    (h : Makes allowed work) (hnext : ∀ answer, Makes allowed (next answer)) :
    Makes allowed (work >>= next) := by
  intro machine
  obtain ⟨made, hcalls, hmade⟩ := h machine
  obtain ⟨later, hlater, hall⟩ := hnext (work.run machine).1 (work.run machine).2
  refine ⟨later ++ made, ?_, List.forall_mem_append.mpr ⟨hall, hmade⟩⟩
  rw [List.append_assoc, ← hcalls]
  exact hlater

/-- Work that may fail goes on only if it did not. -/
theorem Makes.bindFailing {work : ExceptT ε (StateM Machine) α}
    {next : α → ExceptT ε (StateM Machine) β} (h : Makes allowed work.run)
    (hnext : ∀ answer, Makes allowed (next answer).run) : Makes allowed (work >>= next).run := by
  rw [ExceptT.run_bind]
  refine h.bind fun outcome ↦ ?_
  cases outcome with
  | ok answer => exact hnext answer
  | error fault => exact makes_pure _

/-- Work that cannot fail, as a part of work that may. -/
theorem Makes.lift {work : StateM Machine α} (h : Makes allowed work) :
    Makes allowed (liftM work : ExceptT ε (StateM Machine) α).run :=
  h.bind fun _ ↦ makes_pure _

theorem makes_take {call : Call} (h : allowed call) : Makes allowed (Machine.take call) :=
  fun _ ↦ ⟨[call], rfl, List.forall_mem_singleton.mpr h⟩

theorem makes_call {native : NativeCall} (h : allowed (.native native)) :
    Makes allowed (Native.call native) := by
  refine (makes_take h).bind fun fate ↦ ?_
  cases fate with
  | raise => exact makes_of_same fun _ ↦ rfl
  | _ => exact makes_pure _

theorem makes_callFor {native : NativeCall} (h : allowed (.native native))
    (object : Option Object) : Makes allowed (Native.callFor native object) := by
  refine (makes_call h).bind fun answered ↦ ?_
  cases answered with
  | false => exact makes_pure _
  | true =>
    cases object with
    | none => exact makes_pure _
    | some object => exact makes_of_same fun _ ↦ rfl

theorem makes_takeException : Makes allowed Native.takeException :=
  makes_of_same fun _ ↦ rfl

theorem makes_withLocal {body : ExceptT ε (StateM Machine) α} (ref : Ref)
    (h : Makes allowed body.run) : Makes allowed (Native.withLocal ref body).run :=
  Makes.bind h fun _ ↦ (makes_of_same fun _ ↦ rfl).bind fun _ ↦ makes_pure _

end Makes

/-! ### Native calls -/

theorem call_calls (native : NativeCall) (machine : Machine) :
    ((Native.call native).run machine).2.calls = .native native :: machine.calls := by
  have htaken : (Machine.take (.native native)).run machine =
      (machine.script.fate machine.calls (.native native),
        { machine with calls := .native native :: machine.calls }) := rfl
  rw [Native.call, StateT.run_bind, htaken]
  generalize machine.script.fate machine.calls (.native native) = fate
  cases fate <;> rfl

/-- A call is recorded whether it gives an object or not. -/
theorem callFor_calls (native : NativeCall) (object : Option Object) (machine : Machine) :
    ((Native.callFor native object).run machine).2.calls = .native native :: machine.calls := by
  have hcalls := call_calls native machine
  unfold Native.callFor
  rw [StateT.run_bind]
  generalize (Native.call native).run machine = ended at hcalls ⊢
  obtain ⟨answered, after⟩ := ended
  cases answered with
  | false => exact hcalls
  | true => cases object <;> exact hcalls

/-! ### Calls of the tool interface -/

section Tools

variable {machine after : Machine} {call : ToolCall}

/-- A machine that lacks no function and on which every call goes well. -/
structure Obliging (machine : Machine) : Prop where
  missing : machine.script.missing = []
  fate : ∀ calls call, machine.script.fate calls call = .answer

theorem resolve_run (call : ToolCall) (machine : Machine) :
    (Tool.resolve call).run.run machine =
      (if machine.script.missing.contains call.function then .error .notAvailable else .ok (),
        machine) := by
  change ((if machine.script.missing.contains call.function then _ else _ : Tool.Query Unit).run.run
    machine) = _
  split <;> rfl

/-- A call changes nothing but the record of calls. -/
theorem invoke_eq_ok {given : Bool} (h : (Tool.invoke call).run.run machine = (.ok given, after)) :
    after = { machine with calls := .tool call :: machine.calls } := by
  obtain ⟨_, between, hresolved, h⟩ := edit_bind_eq_ok.mp h
  rw [resolve_run] at hresolved
  obtain rfl : machine = between := congrArg Prod.snd hresolved
  obtain ⟨fate, taken, htaken, h⟩ := edit_bind_eq_ok.mp h
  cases htaken
  revert h
  generalize machine.script.fate machine.calls (.tool call) = fate
  intro h
  cases fate with
  | answer | raise | null =>
    cases h
    rfl
  | error code =>
    obtain ⟨_, checked, hchecked, h⟩ := edit_bind_eq_ok.mp h
    cases h
    rw [Tool.check] at hchecked
    split at hchecked
    · cases hchecked
      rfl
    · cases hchecked

theorem takeText_eq_ok {content : Bytes} {text : String}
    (h : (Tool.takeText content).run.run machine = (.ok text, after)) :
    text = decodeLossy (untilZero content) := by
  obtain ⟨_, _, -, h⟩ := edit_bind_eq_ok.mp h
  obtain ⟨_, _, -, h⟩ := edit_bind_eq_ok.mp h
  cases h
  rfl

theorem resolve_of_obliging (h : Obliging machine) (call : ToolCall) :
    (Tool.resolve call).run.run machine = (.ok (), machine) := by
  rw [resolve_run, h.missing]
  rfl

theorem invoke_of_obliging (h : Obliging machine) (call : ToolCall) :
    (Tool.invoke call).run.run machine =
      (.ok true, { machine with calls := .tool call :: machine.calls }) := by
  refine edit_bind_eq_ok.mpr ⟨(), machine, resolve_of_obliging h call, ?_⟩
  refine edit_bind_eq_ok.mpr ⟨.answer, _, ?_, rfl⟩
  exact congrArg (fun fate ↦ (Except.ok fate, _)) (h.fate _ _)

theorem deallocate_of_obliging (h : Obliging machine) :
    Tool.deallocate.run.run machine = (.ok (), { machine with memory := machine.memory - 1 }) := by
  refine edit_bind_eq_ok.mpr ⟨(), machine, resolve_of_obliging h _, ?_⟩
  refine edit_bind_eq_ok.mpr ⟨⟨⟩, { machine with memory := machine.memory - 1 }, rfl, ?_⟩
  refine edit_bind_eq_ok.mpr ⟨{ machine with memory := machine.memory - 1 }, _, rfl, ?_⟩
  dsimp only
  rw [h.fate]
  rfl

theorem takeText_of_obliging (h : Obliging machine) (content : Bytes) :
    (Tool.takeText content).run.run machine =
      (.ok (decodeLossy (untilZero content)), machine) := by
  have hmore : Obliging { machine with memory := machine.memory + 1 } := ⟨h.missing, h.fate⟩
  refine edit_bind_eq_ok.mpr ⟨⟨⟩, { machine with memory := machine.memory + 1 }, rfl, ?_⟩
  exact edit_bind_eq_ok.mpr ⟨(), _, deallocate_of_obliging hmore, rfl⟩

end Tools

end ClassWeaver.Vm
