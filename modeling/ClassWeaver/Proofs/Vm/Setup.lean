import ClassWeaver.Proofs.Search.Contents
import ClassWeaver.Proofs.Vm.Calls

/-!
What a machine has set up for an agent, and which calls change that.

`Steady` says of work that it keeps the setup, wherever it starts. `Changes` says of a query that
it changes the setup in one way if it succeeds, and not at all if it fails.
-/

set_option autoImplicit false
set_option relaxedAutoImplicit false

namespace ClassWeaver.Vm

open Search

/-- What a machine has set up for an agent. -/
structure Setup where
  script : Script
  callbacks : Bool
  enabled : List EventNumber
  capabilities : Capabilities

def Machine.setup (machine : Machine) : Setup :=
  ⟨machine.script, machine.callbacks, machine.enabled, machine.capabilities⟩

theorem isEnabled_of_setup {machine : Machine} {setup : Setup} {event : EventNumber}
    (h : machine.setup = setup) :
    machine.isEnabled event = (setup.callbacks && setup.enabled.contains event) := by
  rw [← h]
  rfl

namespace Setup

/-- The capabilities that an agent wants are added, as far as the machine offers them. -/
def grant (setup : Setup) : Setup :=
  let potential := Capabilities.wanted.inter setup.script.potential
  { setup with capabilities := setup.capabilities.union potential }

def install (setup : Setup) : Setup :=
  { setup with callbacks := true }

def enable (event : EventNumber) (setup : Setup) : Setup :=
  { setup with enabled := event :: setup.enabled.filter (· ≠ event) }

end Setup

/-! ### Work that keeps the setup -/

section Work

variable {ε α β : Type}

/-- The work keeps the setup of the machine. -/
abbrev Steady (work : StateM Machine α) : Prop :=
  ∀ setup : Setup, Stays (fun machine ↦ machine.setup = setup) work

theorem steady_of_same {work : StateM Machine α}
    (h : ∀ machine, (work.run machine).2.setup = machine.setup) : Steady work :=
  fun _ machine hmachine ↦ (h machine).trans hmachine

/-- Work that may fail goes on only if it did not. -/
theorem steady_bindFailing {work : ExceptT ε (StateM Machine) α}
    {next : α → ExceptT ε (StateM Machine) β} (h : Steady work.run)
    (hnext : ∀ answer, Steady (next answer).run) : Steady (work >>= next).run := by
  intro setup
  rw [ExceptT.run_bind]
  refine (h setup).bind fun outcome ↦ ?_
  cases outcome with
  | ok answer => exact hnext answer setup
  | error fault => exact stays_pure _

theorem steady_resolve (call : ToolCall) : Steady (Tool.resolve call).run :=
  steady_of_same fun _ ↦ by rw [resolve_run]

theorem steady_check (code : ErrorCode) : Steady (Tool.check code).run :=
  steady_of_same fun _ ↦ by
    rw [Tool.check]
    split <;> rfl

theorem steady_invoke (call : ToolCall) : Steady (Tool.invoke call).run := by
  refine steady_bindFailing (steady_resolve call) fun _ ↦ ?_
  refine steady_bindFailing (steady_of_same fun _ ↦ rfl) fun fate ↦ ?_
  cases fate with
  | answer | raise | null => exact steady_of_same fun _ ↦ rfl
  | error code =>
    exact steady_bindFailing (steady_check code) fun _ ↦ steady_of_same fun _ ↦ rfl

theorem steady_deallocate : Steady Tool.deallocate.run := by
  refine steady_bindFailing (steady_resolve _) fun _ ↦ ?_
  refine steady_bindFailing (steady_of_same fun _ ↦ rfl) fun _ ↦ ?_
  refine steady_bindFailing (steady_of_same fun _ ↦ rfl) fun machine ↦ ?_
  split
  · exact steady_check _
  · exact steady_of_same fun _ ↦ rfl

theorem steady_takeText (content : Bytes) : Steady (Tool.takeText content).run :=
  steady_bindFailing (steady_of_same fun _ ↦ rfl) fun _ ↦
    steady_bindFailing steady_deallocate fun _ ↦ steady_of_same fun _ ↦ rfl

theorem steady_describeError (code : ErrorCode) : Steady (Tool.describeError code) := by
  have hname : Steady (Tool.getErrorName code).run := by
    refine steady_bindFailing (steady_invoke _) fun given ↦ ?_
    refine steady_bindFailing (steady_of_same fun _ ↦ rfl) fun machine ↦ ?_
    split
    · exact steady_of_same fun _ ↦ rfl
    · split
      · exact steady_takeText _
      · exact steady_of_same fun _ ↦ rfl
  refine fun setup ↦ (hname setup).bind fun outcome ↦ ?_
  cases outcome with
  | ok name => exact stays_pure _
  | error code => exact stays_pure _

theorem steady_connect : Steady Tool.connect.run := by
  refine steady_bindFailing (steady_of_same fun _ ↦ rfl) fun machine ↦ ?_
  refine steady_bindFailing (steady_of_same fun _ ↦ rfl) fun _ ↦ steady_of_same fun _ ↦ ?_
  split <;> rfl

/-! ### Calls that change the setup -/

/-- The setup is changed if the query succeeds, and kept if it fails. -/
def Changes (query : Tool.Query Unit) (change : Setup → Setup) : Prop :=
  ∀ machine, match query.run.run machine with
    | (.ok _, after) => after.setup = change machine.setup
    | (.error _, after) => after.setup = machine.setup

theorem changes_perform {call : ToolCall} {work : StateM Machine Unit} {change : Setup → Setup}
    (h : ∀ machine, (work.run machine).2.setup = change machine.setup) :
    Changes (Tool.perform call >>= fun _ ↦ liftM work) change := by
  intro machine
  have hkept : ((Tool.invoke call).run.run machine).2.setup = machine.setup :=
    steady_invoke call _ machine rfl
  rw [edit_bind_run, Tool.perform, edit_bind_run]
  generalize (Tool.invoke call).run.run machine = ended at hkept ⊢
  obtain ⟨outcome, between⟩ := ended
  cases outcome with
  | error code => exact hkept
  | ok given => exact (h between).trans (congrArg change hkept)

theorem changes_addCapabilities (added : Capabilities) :
    Changes (Tool.addCapabilities added) fun setup ↦
      { setup with capabilities := setup.capabilities.union added } :=
  changes_perform fun _ ↦ rfl

theorem changes_setEventCallbacks : Changes Tool.setEventCallbacks Setup.install :=
  changes_perform fun _ ↦ rfl

theorem changes_setEventNotificationMode (event : EventNumber) :
    Changes (Tool.setEventNotificationMode true event) (Setup.enable event) :=
  changes_perform fun _ ↦ rfl

end Work

end ClassWeaver.Vm
