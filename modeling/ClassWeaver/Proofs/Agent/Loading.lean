import ClassWeaver.Agent.Host
import ClassWeaver.Proofs.Vm.Setup
import ClassWeaver.Proofs.Workspace.Effects
import ClassWeaver.Surroundings
import ClassWeaver.Vm.Faults

/-!
What loading an agent leaves in a host.

Without an agent that has started, requests say so, and events change nothing
(`occurAll_of_absent`). Loading takes its steps one after the other, and `Loads` follows them. An
agent starts before the machine is asked to send it events. What loading leaves therefore depends
on where it ends (`leaves_onLoad`): if it fails before that, no agent has started; if it succeeds,
an agent serves; and if the machine refuses to send the events, loading fails, but the agent has
started and stays, and any later attempt fails as well.
-/

set_option autoImplicit false
set_option relaxedAutoImplicit false

namespace ClassWeaver

open Search

/-! ### Entries that are no loaders -/

namespace Workspace

variable {World Loader : Type} {access : Access World Loader} {world : World}
  {workspace : Workspace Loader} {entry : Entry Loader}

theorem hasSame_run (h : ∀ handle, entry ≠ .loader handle) (entries : List (Entry Loader)) :
    ((Registry.hasSame access entry entries).run world).2 = world := by
  induction entries with
  | nil => rfl
  | cons known rest ih =>
    have hsame : known.same access entry = pure (known.sameFile entry) := by
      unfold Entry.same
      split
      · exact absurd rfl (h _)
      · rfl
    rw [Registry.hasSame, hsame, pure_bind]
    split
    · rfl
    · exact ih

section Unkept

variable (hpreserve : workspace.registry.preserve = false)
include hpreserve

theorem meets_currentPool_unkept : Meets (· = world) (currentPool access) workspace
    fun _ after ↦ after.registry.preserve = false := by
  have hpath : workspace.registry.newPath access =
      pure (workspace.registry, workspace.registry.system) := by
    rw [Registry.newPath, hpreserve]
    rfl
  refine meets_bind (meets_get ?_)
  split
  · exact meets_pure hpreserve
  · rw [hpath]
    exact meets_bind (meets_ask fun _ hworld ↦
      ⟨hworld, meets_bind (meets_set (meets_pure hpreserve))⟩)

/-- Adding such an entry asks nothing of the world, as long as the path is not to be kept. -/
theorem meets_addToPath_plain (h : ∀ handle, entry ≠ .loader handle) (side : Side) :
    Meets (· = world) (addToPath access side entry) workspace
      fun _ after ↦ after.registry.preserve = false := by
  refine meets_bind ((meets_currentPool_unkept hpreserve).imp fun pool between hbetween ↦ ?_)
  have hregister (world : World) :
      ((between.registry.register access side entry pool.path).run world).2 = world := by
    have hsame : ((Registry.hasSame access entry (between.registry.recorded side)).run world).2 =
        world := hasSame_run h _
    rw [Registry.register, StateT.run_bind]
    generalize (Registry.hasSame access entry _).run world = asked at hsame ⊢
    obtain ⟨found, later⟩ := asked
    cases found <;> exact hsame
  refine meets_bind (meets_get (meets_bind (meets_ask fun _ hworld ↦
    ⟨(hregister _).trans hworld, ?_⟩)))
  split
  · exact meets_pure hbetween
  · rename_i registry path hadded
    obtain ⟨rfl, rfl⟩ := Registry.register_eq_some hadded
    refine meets_bind (meets_set (meets_pure ?_))
    cases side <;> exact hbetween

theorem meets_addAll_plain {entries : List (Entry Loader)}
    (h : ∀ entry ∈ entries, ∀ handle, entry ≠ .loader handle) (side : Side) :
    Meets (· = world) (entries.forM fun entry ↦ do
        let _ ← addToPath access side entry) workspace
      fun _ after ↦ after.registry.preserve = false := by
  induction entries generalizing workspace with
  | nil => exact meets_pure hpreserve
  | cons entry rest ih =>
    obtain ⟨hentry, hrest⟩ := List.forall_mem_cons.mp h
    refine meets_bind (meets_bind ?_)
    refine (meets_addToPath_plain hpreserve hentry side).imp fun _ after hafter ↦ ?_
    exact meets_pure (ih hafter hrest)

end Unkept

end Workspace

namespace Agent.Host

open Vm

variable {α β : Type} {host : Host} {post : α → Host → Prop} {stop : LoadError → Host → Prop}

/-! ### Events without an agent -/

/-- What a machine sends to an agent. -/
inductive Event where
  | machineInit
  | classFileLoadHook (load : ClassLoad)

/-- The bytes that take the place of a class file at an event, if any. -/
def Event.occur : Event → StateM Host (Option Bytes)
  | machineInit => do
    let _ ← Host.machineInit
    return none
  | classFileLoadHook load => return (← Host.classFileLoadHook load).join

section Absent

variable (h : host.agent = none)
include h

theorem withAgent_of_absent (absent : α) (event : Running → StateM Machine (α × Running)) :
    (withAgent absent event).run host = (absent, host) := by
  change withAgent absent event host = _
  rw [withAgent, h]

theorem handled_of_absent (absent : α) (event : Running → StateM Machine (α × Running)) :
    (handled absent event).run host = (absent, host) := by
  rw [handled, StateT.run_bind]
  change ((if host.registered = some .instrumentation then _ else _ : StateM Host α).run host) = _
  split
  · exact withAgent_of_absent h absent event
  · rfl

/-- An event changes nothing if no agent has started. -/
theorem occur_of_absent (event : Event) : event.occur.run host = (none, host) := by
  cases event with
  | machineInit =>
    have hinit : (Host.machineInit.run host).2 = host := by
      rw [Host.machineInit, StateT.run_bind]
      change ((if host.machine.isEnabled .machineInit then _ else _ :
        StateM Host Bool).run host).2 = host
      split
      · rw [StateT.run_bind, handled_of_absent h]
        rfl
      · rfl
    exact congrArg (Prod.mk none) hinit
  | classFileLoadHook load =>
    have hoffer : (offer load).run host = (none, host) := by
      rw [offer, StateT.run_bind]
      exact handled_of_absent h _ _
    change (((if host.machine.isEnabled .classFileLoadHook then _ else _ :
      StateM Host (Option (Option Bytes))) >>= fun answer ↦ pure answer.join).run host) = _
    rw [StateT.run_bind]
    split
    · rw [StateT.run_bind, hoffer]
      rfl
    · rfl

theorem occurAll_of_absent (events : List Event) :
    (events.mapM Event.occur).run host = (events.map fun _ ↦ none, host) := by
  induction events with
  | nil => rfl
  | cons event rest ih =>
    rw [List.mapM_cons, StateT.run_bind, occur_of_absent h]
    change ((rest.mapM Event.occur) >>= fun _ ↦ pure _ : StateM Host _).run host = _
    rw [StateT.run_bind, ih]
    rfl

theorem searchPath_of_absent :
    searchPath.run host = (.error (.illegalState .notInstrumented), host) := by
  rw [searchPath, StateT.run_bind]
  exact withAgent_of_absent h _ _

end Absent

theorem withAgent_of_started {agent : Running} (h : host.agent = some agent) (absent : α)
    (event : Running → StateM Machine (α × Running)) :
    ((withAgent absent event).run host).1 = ((event agent).run host.machine).1.1 := by
  change (withAgent absent event host).1 = _
  rw [withAgent, h]
  dsimp only
  generalize (event agent).run host.machine = ended
  obtain ⟨⟨answer, after⟩, machine⟩ := ended
  rfl

theorem searchPath_of_started (h : host.agent.isSome = true) :
    ∃ path, (searchPath.run host).1 = .ok path := by
  obtain ⟨agent, hagent⟩ := Option.isSome_iff_exists.mp h
  let path := Workspace.searchPath (LoaderHandle.access host.files)
  have hrun : searchPath.run host =
      (withAgent (.error (Failure.illegalState .notInstrumented)) fun agent ↦
        inWorkspace agent (Except.ok <$> path)).run host := rfl
  refine ⟨((path.run agent.workspace).run host.machine).1.1, ?_⟩
  rw [hrun, withAgent_of_started hagent, inWorkspace, StateT.run_bind, StateT.run_map,
    StateT.run_map]
  rcases (path.run agent.workspace).run host.machine with ⟨⟨answer, after⟩, machine⟩
  rfl

/-! ### Steps of loading -/

/-- Loading ends as `post` says, or fails and ends as `stop` says. -/
def Loads (work : Loading α) (host : Host) (post : α → Host → Prop)
    (stop : LoadError → Host → Prop) : Prop :=
  match work.run.run host with
  | (.ok answer, after) => post answer after
  | (.error error, after) => stop error after

/-- What follows from either end holds of the end that loading comes to. -/
theorem Loads.elim {work : Loading α} (goal : Except LoadError α → Host → Prop)
    (h : Loads work host post stop)
    (hanswer : ∀ answer after, post answer after → goal (.ok answer) after)
    (herror : ∀ error after, stop error after → goal (.error error) after) :
    goal (work.run.run host).1 (work.run.run host).2 := by
  unfold Loads at h
  generalize work.run.run host = ended at h ⊢
  obtain ⟨outcome, after⟩ := ended
  cases outcome with
  | ok answer => exact hanswer answer after h
  | error error => exact herror error after h

theorem loads_bind {work : Loading β} {next : β → Loading α}
    (h : Loads work host (fun answer after ↦ Loads (next answer) after post stop) stop) :
    Loads (work >>= next) host post stop := by
  unfold Loads at h ⊢
  rw [edit_bind_run]
  generalize work.run.run host = ended at h ⊢
  obtain ⟨outcome, after⟩ := ended
  cases outcome with
  | ok answer => exact h
  | error error => exact h

theorem loads_onMachine {work : StateM Machine α}
    (h : post (work.run host.machine).1 { host with machine := (work.run host.machine).2 }) :
    Loads (liftM (onMachine work : StateM Host α)) host post stop :=
  h

theorem loads_get {post : Host → Host → Prop} (h : post host host) :
    Loads get host post stop :=
  h

theorem loads_modify {change : Host → Host} {post : PUnit → Host → Prop}
    (h : post ⟨⟩ (change host)) : Loads (modify change) host post stop :=
  h

theorem loads_throw {error : LoadError} (h : stop error host) :
    Loads (throw error) host post stop :=
  h

theorem loads_ask {failure : String → LoadError} {query : Tool.Query Unit} {change : Setup → Setup}
    {post : Unit → Host → Prop} (hchanges : Changes query change)
    (h : ∀ machine, machine.setup = change host.machine.setup → post () { host with machine })
    (hstop : ∀ reason machine, machine.setup = host.machine.setup →
      stop (failure reason) { host with machine }) :
    Loads (ask failure query) host post stop := by
  refine loads_bind (loads_onMachine ?_)
  have hended := hchanges host.machine
  generalize query.run.run host.machine = ended at hended ⊢
  obtain ⟨outcome, machine⟩ := ended
  cases outcome with
  | ok _ => exact h machine hended
  | error code =>
    have hkept := steady_describeError code machine.setup machine rfl
    exact hstop _ _ (hkept.trans hended)

theorem changes_requestCapabilities : Changes requestCapabilities Setup.grant := by
  intro machine
  have hkept : ((Tool.invoke .getPotentialCapabilities).run.run machine).2.setup = machine.setup :=
    steady_invoke _ _ machine rfl
  rw [requestCapabilities, edit_bind_run, Tool.getPotentialCapabilities, edit_bind_run,
    Tool.perform, edit_bind_run]
  generalize (Tool.invoke .getPotentialCapabilities).run.run machine = ended at hkept ⊢
  obtain ⟨outcome, between⟩ := ended
  cases outcome with
  | error code => exact hkept
  | ok given =>
    have hended := changes_addCapabilities
      (Capabilities.wanted.inter between.script.potential) between
    rw [← hkept]
    exact hended

/-- Making an agent leaves the host alone, since no entry that options name is a loader. -/
theorem loads_makeAgent {options : Options} {post : Running → Host → Prop}
    (h : ∀ agent, post agent host) (hstop : ∀ error, stop (.transformers error) host) :
    Loads (makeAgent options) host post stop := by
  unfold makeAgent
  split
  · exact hstop _
  · rename_i chain hchain
    have hentries : ∀ entry ∈ (options.searchPath : List (Entry LoaderHandle)),
        ∀ handle, entry ≠ .loader handle := by
      intro entry hentry handle
      obtain ⟨path, -, rfl⟩ := List.mem_map.mp hentry
      rw [Entry.ofPath]
      split <;> exact nofun
    let work : Work Machine LoaderHandle Unit := options.searchPath.forM fun entry ↦ do
      let _ ← Workspace.addToPath (LoaderHandle.access host.files) .back entry
    have hwork : Workspace.Meets (· = host.machine) work (.ofSystem []) fun _ after ↦
        after.registry.preserve = false :=
      Workspace.meets_addAll_plain rfl hentries .back
    have hmachine : ((inWorkspace ⟨chain, .ofSystem []⟩ work).run host.machine).2 = host.machine :=
      (hwork host.machine rfl).1
    refine loads_bind (loads_get (loads_bind (loads_onMachine ?_)))
    change post _ { host with
      machine := ((inWorkspace ⟨chain, .ofSystem []⟩ work).run host.machine).2 }
    rw [hmachine]
    exact h _

/-- An agent that has started stays, and no other one starts. -/
theorem onLoad_of_started [LevelSpelling] (h : host.agent.isSome = true) (text : String) :
    ((onLoad text).run.run host).1 ≠ .ok () ∧
      ((onLoad text).run.run host).2.agent = host.agent := by
  have hloads : Loads (onLoad text) host (fun _ _ ↦ False)
      fun _ after ↦ after.agent = host.agent := by
    unfold onLoad
    split
    · exact loads_bind (loads_modify (loads_throw rfl))
    · refine loads_bind (loads_modify (loads_bind (loads_onMachine ?_)))
      split
      · exact loads_throw rfl
      · refine loads_bind (loads_ask changes_requestCapabilities (fun machine _ ↦ ?_)
          fun _ _ _ ↦ rfl)
        refine loads_bind (loads_makeAgent (fun agent ↦ ?_) fun _ ↦ rfl)
        refine loads_bind (loads_get ?_)
        rw [if_pos h]
        exact loads_bind (loads_throw rfl)
  exact Loads.elim (fun outcome after ↦ outcome ≠ .ok () ∧ after.agent = host.agent) hloads
    (fun _ _ ↦ False.elim) fun _ _ hstays ↦ ⟨nofun, hstays⟩

/-! ### What loading leaves -/

/-- An agent serves: it has started, it was given the capabilities that it wants as far as the
machine offers them, and it is sent the events that it handles. -/
structure Serving (before : Machine) (after : Host) : Prop where
  agent : after.agent.isSome = true
  capabilities : after.machine.capabilities = before.capabilities.union
    (Capabilities.wanted.inter before.script.potential)
  callbacks : after.machine.callbacks = true
  machineInit : after.machine.isEnabled .machineInit = true
  classFileLoadHook : after.machine.isEnabled .classFileLoadHook = true

/-- An agent has started though loading failed, it stays, and the machine is set up for it up to
some point. -/
structure Stranded (before : Machine) (after : Host) : Prop where
  agent : after.agent.isSome = true
  searchPath : ∃ path, (Host.searchPath.run after).1 = .ok path
  again : ∀ [LevelSpelling] (text : String), ((onLoad text).run.run after).1 ≠ .ok () ∧
    ((onLoad text).run.run after).2.agent = after.agent
  setup : after.machine.setup = before.setup.grant ∨
    after.machine.setup = before.setup.grant.install ∨
      after.machine.setup = before.setup.grant.install.enable .machineInit

/-- No agent has started, requests say so, and nothing comes of any event. -/
structure Bare (before : Machine) (after : Host) : Prop where
  agent : after.agent = none
  searchPath : Host.searchPath.run after = (.error (.illegalState .notInstrumented), after)
  events : ∀ events : List Event,
    (events.mapM Event.occur).run after = (events.map fun _ ↦ none, after)
  callbacks : after.machine.callbacks = before.callbacks
  enabled : after.machine.enabled = before.enabled

/-- What loading an agent leaves, by its outcome. -/
def Leaves (before : Machine) : Except LoadError Unit → Host → Prop
  | .ok _ => Serving before
  | .error (.events _) => Stranded before
  | .error _ => Bare before

theorem bare_of_setup {before : Machine} {after : Host} (h : after.agent = none)
    (hsetup : after.machine.setup = before.setup ∨
      after.machine.setup = before.setup.grant) : Bare before after where
  agent := h
  searchPath := searchPath_of_absent h
  events := occurAll_of_absent h
  callbacks := by rcases hsetup with hsetup | hsetup <;> exact congrArg Setup.callbacks hsetup
  enabled := by rcases hsetup with hsetup | hsetup <;> exact congrArg Setup.enabled hsetup

theorem stranded_of_setup {before : Machine} {after : Host} (h : after.agent.isSome = true)
    (hsetup : after.machine.setup = before.setup.grant ∨
      after.machine.setup = before.setup.grant.install ∨
        after.machine.setup = before.setup.grant.install.enable .machineInit) :
    Stranded before after :=
  ⟨h, searchPath_of_started h, fun text ↦ onLoad_of_started h text, hsetup⟩

theorem serving_of_setup {before : Machine} {after : Host} (h : after.agent.isSome = true)
    (hsetup : after.machine.setup =
      (before.setup.grant.install.enable .machineInit).enable .classFileLoadHook) :
    Serving before after where
  agent := h
  capabilities := congrArg Setup.capabilities hsetup
  callbacks := congrArg Setup.callbacks hsetup
  machineInit := by
    rw [isEnabled_of_setup hsetup]
    simp [Setup.enable, Setup.install, EventNumber.machineInit, EventNumber.classFileLoadHook]
  classFileLoadHook := by
    rw [isEnabled_of_setup hsetup]
    simp [Setup.enable, Setup.install]

theorem loads_startAgent (options : Options) (hnone : host.agent = none) :
    Loads (startAgent options) host (fun _ after ↦ Serving host.machine after)
      fun error after ↦ Leaves host.machine (.error error) after := by
  refine loads_bind (loads_onMachine ?_)
  have hconnected : (Tool.connect.run.run host.machine).2.setup = host.machine.setup :=
    steady_connect _ host.machine rfl
  generalize Tool.connect.run.run host.machine = ended at hconnected ⊢
  obtain ⟨outcome, connected⟩ := ended
  have hconnected : connected.setup = host.machine.setup := hconnected
  cases outcome with
  | error status => exact loads_throw (bare_of_setup hnone (.inl hconnected))
  | ok _ =>
    refine loads_bind (loads_ask changes_requestCapabilities (fun granted hgranted ↦ ?_)
      fun reason machine hmachine ↦ bare_of_setup hnone (.inl (hmachine.trans hconnected)))
    rw [hconnected] at hgranted
    refine loads_bind (loads_makeAgent (fun agent ↦ ?_) fun error ↦
      bare_of_setup hnone (.inr hgranted))
    refine loads_bind (loads_get ?_)
    rw [if_neg (by simp [hnone])]
    refine loads_bind (loads_modify ?_)
    refine loads_bind (loads_ask changes_setEventCallbacks (fun installed hinstalled ↦ ?_)
      fun reason machine hmachine ↦ stranded_of_setup rfl (.inl (hmachine.trans hgranted)))
    rw [hgranted] at hinstalled
    refine loads_bind (loads_ask (changes_setEventNotificationMode _) (fun initial hinitial ↦ ?_)
      fun reason machine hmachine ↦
        stranded_of_setup rfl (.inr (.inl (hmachine.trans hinstalled))))
    rw [hinstalled] at hinitial
    refine loads_ask (changes_setEventNotificationMode _) (fun last hlast ↦ ?_)
      fun reason machine hmachine ↦
        stranded_of_setup rfl (.inr (.inr (hmachine.trans hinitial)))
    rw [hinitial] at hlast
    exact serving_of_setup rfl hlast

/-- Loading an agent into a host without one leaves an agent that serves or none that has started,
unless it is the events that the machine refuses. -/
theorem leaves_onLoad [LevelSpelling] (host : Host) (hnone : host.agent = none) (text : String) :
    Leaves host.machine ((onLoad text).run.run host).1 ((onLoad text).run.run host).2 := by
  have hloads : Loads (onLoad text) host (fun _ after ↦ Serving host.machine after)
      fun error after ↦ Leaves host.machine (.error error) after := by
    unfold onLoad
    split
    · exact loads_bind (loads_modify (loads_throw (bare_of_setup hnone (.inl rfl))))
    · exact loads_bind (loads_modify (loads_startAgent _ hnone))
  exact Loads.elim (Leaves host.machine) hloads (fun _ _ hserving ↦ hserving)
    fun _ _ hleaves ↦ hleaves

/-! ### A machine that starts programs with a loader -/

/-- A host in which an agent is registered, and where calls fail as told. -/
def awaiting (faults : Faults) : Host :=
  let script : Script := {
    loaders := [("app", [])]
    systemLoader := some "app"
    classes := []
    toolStatus := 0
    attached := true
    potential := Capabilities.ofList [9, 26, 37]
    missing := []
    errorNames := []
    arrayLength := none
    fate := fun _ ↦ faults.fate }
  { start .none script with registered := some .instrumentation }

/-- All calls go well. -/
theorem leaves_onLoad_serving :
    (awaiting .none).agent = none ∧
      ((onLoad "").run.run (awaiting .none)).1 = .ok () ∧
      Serving (awaiting .none).machine ((onLoad "").run.run (awaiting .none)).2 := by
  have houtcome : ((onLoad "").run.run (awaiting .none)).1 = .ok () := rfl
  have hleaves := leaves_onLoad (awaiting .none) rfl ""
  rw [houtcome] at hleaves
  exact ⟨rfl, houtcome, hleaves⟩

/-- The class file load hook cannot be enabled. -/
def refusing : Faults :=
  { Faults.none with errors := [("SetEventNotificationMode54", ⟨112⟩)] }

/-- Loading fails, and yet there is a search path, which the system class loader joins. -/
theorem not_bare_refusing :
    ((onLoad "").run.run (awaiting refusing)).1 = .error (.events "JVMTI error 112") ∧
      ¬ Bare (awaiting refusing).machine ((onLoad "").run.run (awaiting refusing)).2 ∧
      (searchPath.run ((onLoad "").run.run (awaiting refusing)).2).1 = .ok [] ∧
      (searchPath.run (Event.machineInit.occur.run
        ((onLoad "").run.run (awaiting refusing)).2).2).1 = .ok [.loader ⟨2, .loader "app"⟩] := by
  have hpath : (searchPath.run ((onLoad "").run.run (awaiting refusing)).2).1 = .ok [] := by
    decide +kernel
  refine ⟨by decide +kernel, fun h ↦ ?_, hpath, by decide +kernel⟩
  rw [h.searchPath] at hpath
  cases hpath

end Agent.Host

end ClassWeaver
