import ClassWeaver.Proofs.Redefinition.Enactment

/-!
No retransformation submits bytes that a transformation made.

What a thread submits it has gathered right before, after a renewal of its own, and the bytes are
those that the classes are read from through the renewed search path. However a gathering ends, it
leaves all classes as they are read, so that the next transformer makes of them what it would make
of them in a new workspace.
-/

set_option autoImplicit false
set_option relaxedAutoImplicit false

namespace ClassWeaver.Redefinition

open Search Workspace Lock

variable {Thread World Loader Class : Type} [DecidableEq Thread]
  {access : Access World Loader} {instrumentation : Instrumentation World Loader Class}

/-! ### What is submitted -/

/-- In a workspace that was left `after` a renewal, the class called `name` is in the pool as the
first entry of the search path to have it gives it, open to the next transformer. The search path is
the recorded one, with loaders behind it that were asked for classes. -/
structure LeavesAsRead (access : Access World Loader) (record : Registry Loader)
    (after : Workspace Loader) (world : World) (name : String) (bytes : Bytes)
    (pool : ClassPool Loader) (cls : EditableClass) : Prop where
  current : after.pool = some pool
  path : Replays access (access.contents world) record pool.path
  pooled : ∃ id, pool.classes.lookup name = some id ∧ after.classes[id]? = some cls
  thawed : cls.frozen = false
  unmodified : cls.modified = false
  parsed : ClassFile.parse bytes = .ok cls.file
  first : FirstToHave (access.contents world) pool.path name bytes
  next : WeavesAfresh access (access.Having (access.contents world)) after name pool.path

section

variable {classes : List Class} {before after : Workspace Loader} {world : World}
  {outcome : Except Failure (List (Class × Bytes))}

theorem Gathered.leavesAsRead {name : String} {bytes : Bytes}
    (h : Gathered access instrumentation classes before outcome after world) (hcalm : access.Calm)
    (hpristine : Pristine (access.contents world) after name bytes) :
    ∃ pool cls,
      LeavesAsRead access (before.registry.renew true) after world name bytes pool cls := by
  have ⟨pool, id, cls, hpool, hid, hcls, hparse, hfirst⟩ := hpristine
  obtain ⟨hfrozen, hmodified, -, hfile⟩ := EditableClass.of_parse_eq_ok hparse
  exact ⟨pool, cls, hpool, h.untouched.replays pool hpool, ⟨id, hid, hcls⟩, hfrozen, hmodified,
    hfile, hfirst, weavesAfresh_of_pristine hcalm h.untouched hpool hpristine⟩

theorem Gathered.pools_asRead {name : String} {id : ClassId}
    (h : Gathered access instrumentation classes before outcome after world) (hcalm : access.Calm)
    (hid : after.Pools name id) :
    ∃ bytes pool cls,
      LeavesAsRead access (before.registry.renew true) after world name bytes pool cls := by
  obtain ⟨bytes, hpristine⟩ := h.untouched.pristine name id hid not_false
  exact ⟨bytes, h.leavesAsRead hcalm hpristine⟩

theorem Gathered.batch_asRead {batch : List (Class × Bytes)}
    (h : Gathered access instrumentation classes before (.ok batch) after world)
    (hcalm : access.Calm) :
    batch.map Prod.fst = classes ∧ ∀ definition ∈ batch,
      ∃ name pool cls, instrumentation.Names definition.1 name ∧
        LeavesAsRead access (before.registry.renew true) after world (ClassName.dotted name)
          definition.2 pool cls := by
  obtain ⟨hclasses, hfaithful⟩ := h.faithful batch rfl
  refine ⟨hclasses, fun definition hmem ↦ ?_⟩
  obtain ⟨name, hnames, hpristine⟩ := hfaithful definition hmem
  obtain ⟨pool, cls, hleaves⟩ := h.leavesAsRead hcalm hpristine
  exact ⟨name, pool, cls, hnames, hleaves⟩

end

/-- The batch of a retransformation that is not interrupted is gathered in a workspace that was
renewed just before. -/
theorem gathered_of_gathers {classes : List Class} {workspace after : Workspace Loader}
    {locked : Lock.Holds} {asked world : World} {batch : List (Class × Bytes)}
    (hcalm : access.Calm) (hmachine : instrumentation.Calm access)
    (h : Gathers access instrumentation classes (opened workspace locked) asked batch after world)
    (holds : Lock.Holds) :
    Gathered access instrumentation classes workspace (.ok batch) { after with holds } world := by
  have hends := definitions_ends hcalm hmachine
    (untouched_renew { workspace with holds := locked }) 0 classes asked rfl
  have hruns : Runs (definitions access instrumentation 0 classes)
      { workspace with holds := locked, pool := none, registry := workspace.registry.renew true }
      asked (.ok batch) after world := h.runs 0
  rw [hruns] at hends
  obtain ⟨hcontents : access.contents world = _, hextends, hclasses, hfaithful⟩ := hends
  refine ⟨?_, fun other hother ↦ ?_⟩
  · rw [hcontents]
    exact hextends.fresh.withHolds holds
  · cases hother
    rw [hcontents]
    exact ⟨hclasses, hfaithful⟩

/-- No retransformation submits anything but the bytes that its classes are read from, once the
pool is renewed, whatever was done before.

Of a retransformation that is not interrupted this is said in terms of the batches that the machine
was given. Where other threads transform classes, register entries, renew the pool and retransform
in between, it is said in terms of what each thread has done: what a thread submits it has gathered
right before, and what it gathers is gathered right after a renewal of its own and left as it was
read, whether the gathering succeeds or not. The steps of a thread are those of the
retransformations and transformations that it makes. -/
theorem submitted_asRead (hcalm : access.Calm) (hmachine : instrumentation.Calm access) :
    (∀ classes (workspace : Workspace Loader) world outcome after later,
      Runs (retransform access (some instrumentation) classes) workspace world outcome after later →
        ∃ submitted,
          (∀ ledger : World → List (List (Class × Bytes)), Records access instrumentation ledger →
            ledger later = ledger world ++ submitted) ∧
          ∀ batch ∈ submitted, batch.map Prod.fst = classes ∧
            ∃ gathered, ∀ definition ∈ batch, ∃ name pool cls,
              instrumentation.Names definition.1 name ∧
                LeavesAsRead access (workspace.registry.renew true) after gathered
                  (ClassName.dotted name) definition.2 pool cls) ∧
    ∀ scene : Scene Thread World Loader Class, scene.Reachable access instrumentation →
      ∀ thread,
        (∀ batch answer earlier,
          .submitted batch answer :: earlier <:+ scene.history thread →
            ∃ after world earliest, earlier = .gathered (.ok batch) after world :: earliest) ∧
        (∀ outcome after world earlier,
          .gathered outcome after world :: earlier <:+ scene.history thread →
            ∃ classes before earliest, earlier = .renewed classes before :: earliest ∧
              (∀ name id, after.Pools name id → ∃ bytes pool cls,
                LeavesAsRead access (before.registry.renew true) after world name bytes pool cls) ∧
              ∀ batch, outcome = .ok batch → batch.map Prod.fst = classes ∧
                ∀ definition ∈ batch, ∃ name pool cls, instrumentation.Names definition.1 name ∧
                  LeavesAsRead access (before.registry.renew true) after world
                    (ClassName.dotted name) definition.2 pool cls) ∧
        scene.Enacts access instrumentation thread := by
  constructor
  · intro classes workspace world outcome after later hruns
    obtain ⟨_, _, _, submitted, hend⟩ :=
      exists_retransformed access (some instrumentation) classes workspace world
    cases hend.runs.symm.trans hruns
    refine ⟨submitted, fun ledger hrecords ↦ hend.recorded (by rintro _ ⟨⟩; exact hrecords), ?_⟩
    cases hend with
    | submitted hinstalled hsupport hclasses hlock hbatch hanswer =>
      cases hinstalled
      have hgathered := gathered_of_gathers hcalm hmachine hbatch workspace.holds
      obtain ⟨hfirsts, hdefinitions⟩ := hgathered.batch_asRead hcalm
      exact List.forall_mem_singleton.mpr ⟨hfirsts, _, hdefinitions⟩
    | _ => exact nofun
  · intro scene hreachable thread
    have hsound := sound_of_reachable hcalm hmachine hreachable
    refine ⟨fun batch answer earlier hsuffix ↦ hsound.proper thread _ _ hsuffix,
      fun outcome after world earlier hsuffix ↦ ?_, Scene.enacts hsound.locked⟩
    obtain ⟨classes, before, earliest, hearlier, hgathered⟩ := hsound.proper thread _ _ hsuffix
    refine ⟨classes, before, earliest, hearlier,
      fun name id hid ↦ hgathered.pools_asRead hcalm hid, ?_⟩
    rintro batch rfl
    exact hgathered.batch_asRead hcalm

/-! ### A recorded rehearsal of two threads -/

/-- A class is given another version while it is to be retransformed. -/
def upgrade : Request MemoryLoader where
  transformer := .ofTarget "upgrade" "A" (do
    ClassEdit.changeFile (modify fun file ↦ { file with major := 53 })
    return some (← ClassEdit.serialize))
  loader := none
  name := "A"

abbrev Recorded : Type :=
  Rehearsal × List (List (RehearsedClass × Bytes))

def recordedAccess : Access Recorded MemoryLoader :=
  (Rehearsal.access .none).recording

def recordedMachine : Instrumentation Recorded MemoryLoader RehearsedClass :=
  (Rehearsal.instrumentation true none).recording

theorem contents_recorded (world other : Recorded) :
    recordedAccess.contents world = recordedAccess.contents other := by
  rw [recordedAccess, contents_recording, contents_recording]
  exact contents_rehearsal .none _ _

theorem calm_recordedAccess : recordedAccess.Calm :=
  ⟨fun _ _ _ ↦ contents_recorded _ _, fun _ _ _ ↦ contents_recorded _ _⟩

theorem calm_recordedMachine : recordedMachine.Calm recordedAccess :=
  ⟨fun _ _ ↦ contents_recorded _ _, fun _ _ ↦ contents_recorded _ _⟩

/-- One thread waits with its retransformation until the other one has changed the class. -/
def rehearsed : Scene Bool Recorded MemoryLoader RehearsedClass :=
  let system := [.loader ⟨"application", none, [("A.class", emptyClass)], false⟩]
  let start : Scene Bool Recorded MemoryLoader RehearsedClass :=
    .start (.ofSystem system) (.start, [])
  let next := Scene.advance recordedAccess recordedMachine
  let asked := (start.enter false (.transform upgrade)).enter true (.retransform [upgraded])
  let transformed := next false (next false asked)
  let read := next true (next true (transformed.look true (.retransform [upgraded])))
  next true (next true read)

theorem reachable_rehearsed : rehearsed.Reachable recordedAccess recordedMachine := by
  have hadvance {scene : Scene Bool Recorded MemoryLoader RehearsedClass} (thread : Bool)
      (h : scene.Reachable recordedAccess recordedMachine) :
      (scene.advance recordedAccess recordedMachine thread).Reachable recordedAccess
        recordedMachine :=
    h.step (.advance fun _ _ _ ↦ contents_recorded _ _)
  rw [rehearsed]
  refine hadvance true (hadvance true (hadvance true (hadvance true ?_)))
  refine .step ?_ (.look rfl)
  refine hadvance false (hadvance false ?_)
  refine .step ?_ (.enter _ rfl)
  refine .step ?_ (.enter _ rfl)
  exact ⟨_, _, .refl⟩

/-- The bytes of a class that another thread has changed are submitted as they were; so are those
of a class that is retransformed without interruption. -/
theorem submitted_asRead_rehearsed :
    (∃ after later, Runs (retransform recordedAccess (some recordedMachine) [upgraded]) prepared
      (.start, []) (.ok ()) after later ∧ later.2 = [[(upgraded, emptyClass)]] ∧
        ∃ gathered name pool cls, recordedMachine.Names upgraded name ∧
          LeavesAsRead recordedAccess (prepared.registry.renew true) after gathered
            (ClassName.dotted name) emptyClass pool cls) ∧
    ∃ after world before, rehearsed.history true =
      [.submitted [(upgraded, emptyClass)] (.ok ()),
        .gathered (.ok [(upgraded, emptyClass)]) after world, .renewed [upgraded] before] ∧
      ∃ name pool cls, recordedMachine.Names upgraded name ∧
        LeavesAsRead recordedAccess (before.registry.renew true) after world
          (ClassName.dotted name) emptyClass pool cls := by
  obtain ⟨hretransforms, hscenes⟩ :=
    @submitted_asRead Bool _ _ _ _ _ _ calm_recordedAccess calm_recordedMachine
  constructor
  · have hread : Obtains recordedAccess recordedMachine upgraded (opened prepared ⟨2, 2⟩)
        (.start, []) emptyClass _ _ := .intro rfl rfl rfl
    have hend : Retransformed recordedAccess (some recordedMachine) [upgraded] prepared (.start, [])
        (.ok ()) _ _ _ := .submitted rfl rfl nofun rfl (.cons hread .nil) rfl
    obtain ⟨submitted, hledger, hbatches⟩ := hretransforms _ _ _ _ _ _ hend.runs
    obtain rfl : [[(upgraded, emptyClass)]] = submitted := hledger Prod.snd (records_recording _ _)
    obtain ⟨-, gathered, hdefinitions⟩ := hbatches _ List.mem_cons_self
    exact ⟨_, _, hend.runs, rfl, gathered, hdefinitions _ List.mem_cons_self⟩
  · obtain ⟨after, world, before, hhistory⟩ : ∃ after world before, rehearsed.history true =
      [.submitted [(upgraded, emptyClass)] (.ok ()),
        .gathered (.ok [(upgraded, emptyClass)]) after world, .renewed [upgraded] before] :=
      ⟨_, _, _, rfl⟩
    obtain ⟨-, hgathers, -⟩ := hscenes rehearsed reachable_rehearsed true
    rw [hhistory] at hgathers
    obtain ⟨_, _, _, hearlier, -, hbatch⟩ := hgathers _ _ _ _ (List.suffix_cons _ _)
    cases hearlier
    obtain ⟨-, hdefinitions⟩ := hbatch _ rfl
    exact ⟨after, world, before, hhistory, hdefinitions _ List.mem_cons_self⟩

end ClassWeaver.Redefinition
