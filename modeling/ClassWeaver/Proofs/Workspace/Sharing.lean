import ClassWeaver.Proofs.Unmodified
import Mathlib.Logic.Function.Basic
import Mathlib.Logic.Relation

/-!
Threads that look classes up in one pool at the same time.

A look-up asks the pool twice: at first, and again when it has read a class, which may be long
after. In between it goes through the search path as it was when it began to read. The steps of
different threads come in any order. Entries may join the search path between any two of them, the
world may change, and classes that were found may be edited. Still all threads that find a class by
the same name find the same one (`shares_classes`). A look-up that is not interrupted consists of
such steps (`completes_of_idle`).
-/

set_option autoImplicit false
set_option relaxedAutoImplicit false

namespace ClassWeaver

namespace Sharing

open Search Workspace

variable {Thread World Loader : Type}

/-! ### Look-ups -/

structure Lookup where
  name : String
  /-- Whether a class that no entry has is a failure. -/
  required : Bool

namespace Lookup

/-- What comes of a search for the class. -/
def conclude (lookup : Lookup) : Except Failure (Option ClassId) → Except Failure (Option ClassId)
  | .ok none => if lookup.required then .error (.classNotFound lookup.name) else .ok none
  | outcome => outcome

/-- The look-up, done without interruption. -/
def ask (access : Access World Loader) (lookup : Lookup) :
    FailingWork World Loader (Option ClassId) :=
  if lookup.required then some <$> getInPool access lookup.name
  else findInPool access lookup.name

end Lookup

/-- What a thread is about to do. -/
inductive Task (Loader : Type) where
  | idle
  /-- The pool does not have the class. -/
  | missed (lookup : Lookup)
  /-- The `rest` of the entries were not asked yet. -/
  | asking (lookup : Lookup) (rest : List (Entry Loader))
  | holding (lookup : Lookup) (cls : EditableClass)

/-- A look-up that ended. -/
structure Finding where
  lookup : Lookup
  outcome : Except Failure (Option ClassId)

structure Scene (Thread World Loader : Type) where
  pool : ClassPool Loader
  /-- All classes that were ever read. -/
  classes : Array EditableClass
  world : World
  task : Thread → Task Loader
  /-- All look-ups that ended so far, the latest one last. -/
  findings : List Finding

/-! ### The steps of a thread -/

namespace Scene

/-- The pool has no class, and no thread has looked for one. -/
def start (number : Nat) (path : List (Entry Loader)) (classes : Array EditableClass)
    (world : World) : Scene Thread World Loader where
  pool := ⟨number, path, []⟩
  classes
  world
  task _ := .idle
  findings := []

section Steps

variable [DecidableEq Thread] (access : Access World Loader)

def assign (scene : Scene Thread World Loader) (thread : Thread) (task : Task Loader) :
    Scene Thread World Loader :=
  { scene with task := Function.update scene.task thread task }

def finish (scene : Scene Thread World Loader) (thread : Thread) (lookup : Lookup)
    (outcome : Except Failure (Option ClassId)) : Scene Thread World Loader :=
  let finding : Finding := ⟨lookup, outcome⟩
  { scene with findings := scene.findings ++ [finding] }.assign thread .idle

/-- Asks the pool for the class. -/
def check (scene : Scene Thread World Loader) (thread : Thread) (lookup : Lookup) :
    Scene Thread World Loader :=
  match scene.pool.classes.lookup lookup.name with
  | some id => scene.finish thread lookup (.ok (some id))
  | none => scene.assign thread (.missed lookup)

/-- Goes on with what a search of the entries gave. -/
def receive (scene : Scene Thread World Loader) (thread : Thread) (lookup : Lookup) :
    Except Failure (Option Bytes) → Scene Thread World Loader
  | .error failure => scene.finish thread lookup (.error failure)
  | .ok none => scene.finish thread lookup (lookup.conclude (.ok none))
  | .ok (some bytes) =>
    match EditableClass.parse lookup.name bytes with
    | .error failure => scene.finish thread lookup (.error failure)
    | .ok cls => scene.assign thread (.holding lookup cls)

/-- Asks the next entry. -/
def read (scene : Scene Thread World Loader) (thread : Thread) (lookup : Lookup)
    (entry : Entry Loader) (rest : List (Entry Loader)) : Scene Thread World Loader :=
  let asked := (entry.findClass access lookup.name).run scene.world
  let scene := { scene with world := asked.2 }
  match asked.1 with
  | .error _ => scene.receive thread lookup (.error (.unreadable lookup.name))
  | .ok (some bytes) => scene.receive thread lookup (.ok (some bytes))
  | .ok none => scene.assign thread (.asking lookup rest)

/-- Asks the pool again, and leaves the class there unless it has one by now. -/
def keep (scene : Scene Thread World Loader) (thread : Thread) (lookup : Lookup)
    (cls : EditableClass) : Scene Thread World Loader :=
  let kept := scene.pool.keep lookup.name scene.classes.size
  { scene with pool := kept.1, classes := scene.classes.push cls }.finish thread lookup
    (.ok (some kept.2))

/-- What may happen next. -/
inductive Step : Scene Thread World Loader → Scene Thread World Loader → Prop
  | check {scene thread} (lookup : Lookup) (hidle : scene.task thread = .idle) :
    Step scene (scene.check thread lookup)
  | begin {scene thread lookup} (htask : scene.task thread = .missed lookup) :
    Step scene (scene.assign thread (.asking lookup scene.pool.path))
  | read {scene thread lookup entry rest}
      (htask : scene.task thread = .asking lookup (entry :: rest)) :
    Step scene (scene.read access thread lookup entry rest)
  | exhaust {scene thread lookup} (htask : scene.task thread = .asking lookup []) :
    Step scene (scene.receive thread lookup (.ok none))
  | keep {scene thread lookup cls} (htask : scene.task thread = .holding lookup cls) :
    Step scene (scene.keep thread lookup cls)
  /-- The search path changes, as it does when an entry joins it. -/
  | changePath {scene} (path : List (Entry Loader)) :
    Step scene { scene with pool := { scene.pool with path } }
  /-- A class that was read is edited. -/
  | edit {scene id cls} {α : Type} (hclass : scene.classes[id]? = some cls)
      {program : ClassEdit Id α} (hcomposed : ClassEdit.Composed .free program) :
    Step scene
      { scene with classes := scene.classes.setIfInBounds id (program.run.run cls).2 }
  /-- The world goes on by itself. -/
  | drift {scene} (world : World) : Step scene { scene with world }

/-- What may come about in the course of time, from any pool that has no class yet. -/
def Reachable (scene : Scene Thread World Loader) : Prop :=
  ∃ number path classes world, Relation.ReflTransGen (Step access) (start number path classes world)
    scene

end Steps

end Scene

/-! ### What the pool has -/

/-- The bytes are a class file that declares a class of this name. -/
def Declares (bytes : Bytes) (name : String) : Prop :=
  ∃ file declared, ClassFile.parse bytes = .ok file ∧ file.thisName = .ok declared ∧
    ClassName.dotted declared = name

/-- The class has the name, and was read from bytes that declare it. -/
structure Bears (cls : EditableClass) (name : String) : Prop where
  called : cls.name = name
  source : Declares cls.source name

theorem bears_of_parse {name : String} {bytes : Bytes} {cls : EditableClass}
    (h : EditableClass.parse name bytes = .ok cls) : Bears cls name := by
  obtain ⟨-, -, rfl, hfile⟩ := EditableClass.of_parse_eq_ok h
  obtain ⟨hname, declared, hdeclared, hdotted⟩ := EditableClass.declared_of_parse_eq_ok h
  exact ⟨hname, cls.file, declared, hfile, hdeclared, hdotted⟩

theorem Bears.edited {α : Type} {name : String} {cls : EditableClass} (h : Bears cls name)
    {program : ClassEdit Id α} (hcomposed : ClassEdit.Composed .free program) :
    Bears (program.run.run cls).2 name := by
  have hkept : (program.run.run cls).2.Follows _ cls := hcomposed.keeps_outline.follows rfl
  exact ⟨hkept.name.trans h.called, hkept.source.symm ▸ h.source⟩

namespace Scene

/-- Some look-up has found the class under the name. -/
def Found (scene : Scene Thread World Loader) (name : String) (id : ClassId) : Prop :=
  ∃ finding ∈ scene.findings, finding.lookup.name = name ∧ finding.outcome = .ok (some id)

/-- The pool has what look-ups have found, and every class that it has, or that a thread is about
to leave there, bears its name. -/
structure Sound (scene : Scene Thread World Loader) : Prop where
  found : ∀ name id, scene.pool.classes.lookup name = some id ↔ scene.Found name id
  bears : ∀ name id, scene.pool.classes.lookup name = some id →
    ∃ cls, scene.classes[id]? = some cls ∧ Bears cls name
  held : ∀ thread lookup cls, scene.task thread = .holding lookup cls → Bears cls lookup.name

variable {scene later : Scene Thread World Loader}

theorem sound_start (number : Nat) (path : List (Entry Loader)) (classes : Array EditableClass)
    (world : World) : (start number path classes world : Scene Thread World Loader).Sound where
  found _ _ := ⟨nofun, fun ⟨_, hmem, _⟩ ↦ absurd hmem List.not_mem_nil⟩
  bears _ _ := nofun
  held _ _ _ := nofun

theorem Sound.withWorld (h : scene.Sound) (world : World) : Sound { scene with world } :=
  ⟨h.found, h.bears, h.held⟩

/-- Classes that were read before stay where they are. -/
theorem getElem?_push_of_some {classes : Array EditableClass} {id : ClassId} {cls : EditableClass}
    (h : classes[id]? = some cls) (added : EditableClass) :
    (classes.push added)[id]? = some cls := by
  obtain ⟨hlt, -⟩ := Array.getElem?_eq_some_iff.mp h
  rw [Array.getElem?_push_lt hlt, ← h, Array.getElem?_eq_getElem hlt]

theorem Sound.push (h : scene.Sound) (cls : EditableClass) :
    Sound { scene with classes := scene.classes.push cls } where
  found := h.found
  bears name id hid := by
    obtain ⟨old, hold, hbears⟩ := h.bears name id hid
    exact ⟨old, getElem?_push_of_some hold cls, hbears⟩
  held := h.held

/-- A class that was read may be edited as classes can be. -/
theorem Sound.edit {α : Type} (h : scene.Sound) {id : ClassId} {cls : EditableClass}
    (hclass : scene.classes[id]? = some cls) {program : ClassEdit Id α}
    (hcomposed : ClassEdit.Composed .free program) :
    Sound { scene with
      classes := scene.classes.setIfInBounds id (program.run.run cls).2 } where
  found := h.found
  bears name other hother := by
    obtain ⟨old, hold, hbears⟩ := h.bears name other hother
    by_cases hsame : id = other
    · subst hsame
      obtain rfl : cls = old := Option.some.inj (hclass.symm.trans hold)
      obtain ⟨hlt, -⟩ := Array.getElem?_eq_some_iff.mp hclass
      exact ⟨_, Array.getElem?_setIfInBounds_self_of_lt hlt, hbears.edited hcomposed⟩
    · exact ⟨old, (Array.getElem?_setIfInBounds_ne hsame).trans hold, hbears⟩
  held := h.held

/-! ### How the pool grows -/

/-- What may become of the classes of the pool: none leaves, and only a look-up that finds a class
by a name that the pool did not have adds one. -/
def Grows (scene later : Scene Thread World Loader) : Prop :=
  later.pool.classes = scene.pool.classes ∨
    ∃ lookup id, scene.pool.classes.lookup lookup.name = none ∧
      later.pool.classes = (lookup.name, id) :: scene.pool.classes ∧
      later.findings = scene.findings ++ [⟨lookup, .ok (some id)⟩]

theorem Grows.lookup_eq_some (h : scene.Grows later) {name : String} {id : ClassId}
    (hid : scene.pool.classes.lookup name = some id) :
    later.pool.classes.lookup name = some id := by
  obtain hsame | ⟨lookup, added, hnone, hadded, -⟩ := h
  · rwa [hsame]
  · exact hadded ▸ ClassPool.lookup_cons_eq_some hnone hid

/-! ### What one step preserves -/

variable [DecidableEq Thread] {access : Access World Loader} {thread : Thread} {lookup : Lookup}

theorem Sound.assign (h : scene.Sound) (thread : Thread) {task : Task Loader}
    (htask : ∀ lookup cls, task = .holding lookup cls → Bears cls lookup.name) :
    (scene.assign thread task).Sound where
  found := h.found
  bears := h.bears
  held other lookup cls hother := by
    change Function.update scene.task thread task other = _ at hother
    rw [Function.update_apply] at hother
    split at hother
    · exact htask lookup cls hother
    · exact h.held other lookup cls hother

theorem Sound.idle (h : scene.Sound) (thread : Thread) : (scene.assign thread .idle).Sound :=
  h.assign thread fun _ _ ↦ nofun

theorem found_finish {outcome : Except Failure (Option ClassId)} {name : String} {id : ClassId} :
    (scene.finish thread lookup outcome).Found name id ↔
      scene.Found name id ∨ lookup.name = name ∧ outcome = .ok (some id) := by
  change (∃ finding ∈ scene.findings ++ [Finding.mk lookup outcome], _) ↔ _
  simp only [List.mem_append, List.mem_singleton, or_and_right, exists_or, exists_eq_left]
  rfl

/-- A look-up that ends, and has found nothing that the pool does not have. -/
theorem Sound.finish (h : scene.Sound) (thread : Thread)
    {outcome : Except Failure (Option ClassId)}
    (houtcome : ∀ id, outcome = .ok (some id) → scene.pool.classes.lookup lookup.name = some id) :
    (scene.finish thread lookup outcome).Sound where
  found name id := by
    rw [found_finish, ← h.found]
    refine ⟨.inl, fun hfound ↦ hfound.elim (fun hold ↦ hold) ?_⟩
    rintro ⟨rfl, hid⟩
    exact houtcome id hid
  bears := h.bears
  held := (h.idle thread).held

theorem Sound.check (h : scene.Sound) : (scene.check thread lookup).Sound := by
  rw [Scene.check]
  split
  · rename_i id hid
    refine h.finish thread fun other hother ↦ ?_
    cases hother
    exact hid
  · exact h.assign thread fun _ _ ↦ nofun

theorem Sound.receive (h : scene.Sound) (answer : Except Failure (Option Bytes)) :
    (scene.receive thread lookup answer).Sound := by
  unfold Scene.receive
  split
  · exact h.finish thread fun _ ↦ nofun
  · refine h.finish thread fun id hid ↦ ?_
    rw [Lookup.conclude] at hid
    split at hid <;> cases hid
  · split
    · exact h.finish thread fun _ ↦ nofun
    · rename_i cls hparse
      refine h.assign thread fun other held hheld ↦ ?_
      cases hheld
      exact bears_of_parse hparse

theorem Sound.read (h : scene.Sound) {entry : Entry Loader} {rest : List (Entry Loader)} :
    (scene.read access thread lookup entry rest).Sound := by
  unfold Scene.read
  dsimp only
  split
  · exact (h.withWorld _).receive _
  · exact (h.withWorld _).receive _
  · exact (h.withWorld _).assign thread fun _ _ ↦ nofun

/-- Whoever is first leaves a class in the pool, and whoever is late takes that one. -/
theorem Sound.keep (h : scene.Sound) {cls : EditableClass}
    (htask : scene.task thread = .holding lookup cls) :
    (scene.keep thread lookup cls).Sound where
  found name id := by
    unfold Scene.keep
    rw [found_finish]
    change List.lookup name (scene.pool.keep lookup.name scene.classes.size).1.classes = _ ↔
      scene.Found name id ∨ _
    rw [ClassPool.lookup_keep, ← h.found]
    -- A late thread finds the class that is known, so the new finding agrees with the old ones.
    by_cases hsame : name = lookup.name
    · subst hsame
      rw [if_pos rfl]
      refine ⟨fun hid ↦ .inr ⟨rfl, congrArg Except.ok hid⟩, ?_⟩
      rintro (hknown | ⟨-, hid⟩)
      · rw [ClassPool.keep_of_lookup_eq_some hknown]
      · exact Except.ok.inj hid
    · rw [if_neg hsame]
      exact ⟨.inl, fun hfound ↦ hfound.elim (fun hold ↦ hold)
        fun hlookup ↦ absurd hlookup.1.symm hsame⟩
  bears name id hid := by
    change List.lookup name (scene.pool.keep lookup.name scene.classes.size).1.classes = _ at hid
    cases hknown : scene.pool.classes.lookup lookup.name with
    | some known =>
      rw [ClassPool.keep_of_lookup_eq_some hknown] at hid
      exact (h.push cls).bears name id hid
    | none =>
      rw [ClassPool.lookup_keep, ClassPool.keep_of_lookup_eq_none hknown] at hid
      split at hid
      · rename_i hsame
        cases hid
        exact ⟨cls, Array.getElem?_push_size, hsame ▸ h.held thread lookup cls htask⟩
      · exact (h.push cls).bears name id hid
  held := ((h.push cls).idle thread).held

theorem Sound.step (h : scene.Sound) (hstep : Step access scene later) : later.Sound := by
  cases hstep with
  | check lookup hidle => exact h.check
  | begin htask => exact h.assign _ fun _ _ ↦ nofun
  | read htask => exact h.read
  | exhaust htask => exact h.receive _
  | keep htask => exact h.keep htask
  | changePath path => exact ⟨h.found, h.bears, h.held⟩
  | edit hclass hcomposed => exact h.edit hclass hcomposed
  | drift world => exact h.withWorld world

theorem Reachable.sound (h : scene.Reachable access) : scene.Sound := by
  obtain ⟨number, path, classes, world, hsteps⟩ := h
  induction hsteps with
  | refl => exact sound_start number path classes world
  | tail _ hstep ih => exact ih.step hstep

/-! ### What one step adds to the pool -/

theorem classes_receive (answer : Except Failure (Option Bytes)) :
    (scene.receive thread lookup answer).pool.classes = scene.pool.classes := by
  unfold receive
  split
  · rfl
  · rfl
  · split <;> rfl

theorem grows_keep {cls : EditableClass} : scene.Grows (scene.keep thread lookup cls) := by
  cases hknown : scene.pool.classes.lookup lookup.name with
  | some known =>
    left
    change (scene.pool.keep lookup.name scene.classes.size).1.classes = _
    rw [ClassPool.keep_of_lookup_eq_some hknown]
  | none =>
    refine .inr ⟨lookup, scene.classes.size, hknown, ?_, ?_⟩
    · change (scene.pool.keep lookup.name scene.classes.size).1.classes = _
      rw [ClassPool.keep_of_lookup_eq_none hknown]
    · unfold keep
      rw [ClassPool.keep_of_lookup_eq_none hknown]
      rfl

theorem Step.grows (h : Step access scene later) : scene.Grows later := by
  cases h with
  | check lookup hidle =>
    left
    unfold Scene.check
    split <;> rfl
  | begin htask => exact .inl rfl
  | read htask =>
    left
    unfold Scene.read
    dsimp only
    split
    · exact classes_receive _
    · exact classes_receive _
    · rfl
  | exhaust htask => exact .inl (classes_receive _)
  | keep htask => exact grows_keep
  | changePath path => exact .inl rfl
  | edit hclass hcomposed => exact .inl rfl
  | drift world => exact .inl rfl

theorem lookup_eq_some_of_steps (h : Relation.ReflTransGen (Step access) scene later)
    {name : String} {id : ClassId} (hid : scene.pool.classes.lookup name = some id) :
    later.pool.classes.lookup name = some id := by
  induction h with
  | refl => exact hid
  | tail _ hstep ih => exact hstep.grows.lookup_eq_some ih

/-! ### A thread that is left alone -/

/-- The workspace, with the pool and the classes of the scene. -/
def within (scene : Scene Thread World Loader) (workspace : Workspace Loader) :
    Workspace Loader :=
  { workspace with pool := some scene.pool, classes := scene.classes }

/-! What a thread was about to do does not matter for what it does. -/

theorem assign_assign (thread : Thread) (first second : Task Loader) :
    (scene.assign thread first).assign thread second = scene.assign thread second := by
  simp only [assign, Function.update_idem]

theorem finish_assign (task : Task Loader) (outcome : Except Failure (Option ClassId)) :
    (scene.assign thread task).finish thread lookup outcome =
      scene.finish thread lookup outcome := by
  simp only [finish, assign, Function.update_idem]

theorem receive_assign (task : Task Loader) (answer : Except Failure (Option Bytes)) :
    (scene.assign thread task).receive thread lookup answer =
      scene.receive thread lookup answer := by
  simp only [receive, finish_assign, assign_assign]

theorem read_assign (task : Task Loader) (entry : Entry Loader) (rest : List (Entry Loader)) :
    (scene.assign thread task).read access thread lookup entry rest =
      scene.read access thread lookup entry rest := by
  have hworld (world : World) :
      ({ scene.assign thread task with world } : Scene Thread World Loader) =
        { scene with world }.assign thread task := rfl
  simp only [read, hworld, receive_assign, assign_assign]
  rfl

theorem readFirst_cons_run (access : Access World Loader) (name : String) (entry : Entry Loader)
    (rest : List (Entry Loader)) (workspace : Workspace Loader) (world : World) :
    ((readFirst access name (entry :: rest)).run.run workspace).run world =
      let asked := (entry.findClass access name).run world
      match asked.1 with
      | .error _ => ((.error (.unreadable name), workspace), asked.2)
      | .ok (some bytes) => ((.ok (some bytes), workspace), asked.2)
      | .ok none => ((readFirst access name rest).run.run workspace).run asked.2 := by
  rw [readFirst, failing_bind_run, failing_ask_run]
  generalize (entry.findClass access name).run world = asked
  obtain ⟨_ | _ | _, after⟩ := asked <;> rfl

/-- The steps of one thread, from the first entry on, add up to what `readFirst` does. -/
theorem exists_steps_readFirst (access : Access World Loader) (scene : Scene Thread World Loader)
    (thread : Thread) (lookup : Lookup) (workspace : Workspace Loader)
    (path : List (Entry Loader)) :
    let ended := ((readFirst access lookup.name path).run.run workspace).run scene.world
    ended.1.2 = workspace ∧
      Relation.ReflTransGen (Step access) (scene.assign thread (.asking lookup path))
        ({ scene with world := ended.2 }.receive thread lookup ended.1.1) := by
  -- The scene is generalized, as every entry that is asked may leave another world.
  induction path generalizing scene with
  | nil =>
    have hstep : Step access (scene.assign thread (.asking lookup [])) _ :=
      .exhaust (Function.update_self ..)
    rw [receive_assign] at hstep
    exact ⟨rfl, .single hstep⟩
  | cons entry rest ih =>
    have hstep : Step access (scene.assign thread (.asking lookup (entry :: rest))) _ :=
      .read (Function.update_self ..)
    rw [read_assign, read] at hstep
    rw [readFirst_cons_run]
    generalize (entry.findClass access lookup.name).run scene.world = asked at hstep ⊢
    obtain ⟨failure | none | bytes, after⟩ := asked
    · exact ⟨rfl, .single hstep⟩
    · obtain ⟨hworkspace, hsteps⟩ := ih { scene with world := after }
      exact ⟨hworkspace, .head hstep hsteps⟩
    · exact ⟨rfl, .single hstep⟩

theorem ask_run (access : Access World Loader) (lookup : Lookup) (workspace : Workspace Loader)
    (world : World) :
    ((lookup.ask access).run.run workspace).run world =
      let ended := ((findInPool access lookup.name).run.run workspace).run world
      ((lookup.conclude ended.1.1, ended.1.2), ended.2) := by
  obtain ⟨name, required⟩ := lookup
  cases required with
  | false =>
    change ((findInPool access name).run.run workspace).run world = _
    generalize ((findInPool access name).run.run workspace).run world = ended
    obtain ⟨⟨_ | _ | _, after⟩, later⟩ := ended <;> rfl
  | true =>
    change ((some <$> getInPool access name).run.run workspace).run world = _
    rw [map_eq_pure_bind, failing_bind_run, getInPool, failing_bind_run]
    generalize ((findInPool access name).run.run workspace).run world = ended
    obtain ⟨⟨_ | _ | _, after⟩, later⟩ := ended <;> rfl

/-- Some steps find what the look-up finds without interruption, and leave the same behind. -/
def Completes (access : Access World Loader) (scene : Scene Thread World Loader)
    (lookup : Lookup) : Prop :=
  ∀ workspace : Workspace Loader,
    let ended := ((lookup.ask access).run.run (scene.within workspace)).run scene.world
    ∃ later, Relation.ReflTransGen (Step access) scene later ∧
      later.findings = scene.findings ++ [⟨lookup, ended.1.1⟩] ∧
      ended.1.2 = later.within workspace ∧ ended.2 = later.world

/-- A thread that is left alone completes every look-up. -/
theorem completes_of_idle (hidle : scene.task thread = .idle) : scene.Completes access lookup := by
  intro workspace
  dsimp only
  have hpool : ((liftM (currentPool access) : FailingWork World Loader _).run.run
      (scene.within workspace)).run scene.world =
        ((.ok scene.pool, scene.within workspace), scene.world) := rfl
  have hcheck : Step access scene (scene.check thread lookup) := .check lookup hidle
  rw [ask_run, findInPool, failing_bind_run, hpool]
  rw [Scene.check] at hcheck
  dsimp only
  cases hknown : scene.pool.classes.lookup lookup.name with
  | some id =>
    rw [hknown] at hcheck
    exact ⟨_, .single hcheck, rfl, rfl, rfl⟩
  | none =>
    rw [hknown] at hcheck
    have hbegin : Step access (scene.assign thread (.missed lookup)) _ :=
      .begin (Function.update_self ..)
    rw [assign_assign] at hbegin
    obtain ⟨hworkspace, hread⟩ :=
      exists_steps_readFirst access scene thread lookup (scene.within workspace) scene.pool.path
    have hsteps := (Relation.ReflTransGen.single hcheck).tail hbegin |>.trans hread
    dsimp only
    rw [failing_bind_run]
    generalize ((readFirst access lookup.name scene.pool.path).run.run
      (scene.within workspace)).run scene.world = ended at hworkspace hsteps ⊢
    obtain ⟨⟨failure | none | bytes, between⟩, world⟩ := ended
    all_goals subst hworkspace
    · exact ⟨_, hsteps, rfl, rfl, rfl⟩
    · exact ⟨_, hsteps, rfl, rfl, rfl⟩
    · rw [receive] at hsteps
      dsimp only at hsteps ⊢
      cases hparse : EditableClass.parse lookup.name bytes with
      | error failure =>
        rw [hparse] at hsteps
        exact ⟨_, hsteps, rfl, rfl, rfl⟩
      | ok cls =>
        rw [hparse] at hsteps
        exact ⟨_, hsteps.tail (.keep (Function.update_self ..)), rfl, rfl, rfl⟩

/-! ### One class for one name -/

/-- Threads that find a class by the same name find the same one. The pool has it under that name
from then on, whatever happens; the class bears the name and was read from bytes that declare it.
Only look-ups that find a class change what the pool has. A thread that has nothing else to do can
complete any look-up. -/
theorem shares_classes (hreachable : scene.Reachable access) :
    (∀ first ∈ scene.findings, ∀ second ∈ scene.findings,
      first.lookup.name = second.lookup.name → ∀ id other, first.outcome = .ok (some id) →
        second.outcome = .ok (some other) → id = other) ∧
    (∀ name id, scene.pool.classes.lookup name = some id →
      (∃ cls, scene.classes[id]? = some cls ∧ cls.name = name ∧ Declares cls.source name) ∧
      ∀ later, Relation.ReflTransGen (Step access) scene later →
        later.pool.classes.lookup name = some id) ∧
    (∀ later, Step access scene later → scene.Grows later) ∧
    (∀ thread lookup, scene.task thread = .idle → scene.Completes access lookup) := by
  have hsound := hreachable.sound
  refine ⟨fun first hfirst second hsecond hname id other hid hother ↦ ?_,
    fun name id hid ↦ ⟨?_, fun later hsteps ↦ lookup_eq_some_of_steps hsteps hid⟩,
    fun later hstep ↦ hstep.grows, fun thread lookup hidle ↦ completes_of_idle hidle⟩
  · have hpooled := (hsound.found _ id).mpr ⟨first, hfirst, rfl, hid⟩
    have hotherPooled := (hsound.found _ other).mpr ⟨second, hsecond, hname.symm, hother⟩
    exact Option.some.inj (hpooled.symm.trans hotherPooled)
  · obtain ⟨cls, hcls, hbears⟩ := hsound.bears name id hid
    exact ⟨cls, hcls, hbears.called, hbears.source⟩

/-! ### Two threads that read different classes of one name -/

/-- A loader is the bytes of the class that it has. -/
def bytesAccess : Access Unit Bytes where
  toFiles := .none
  findResource bytes _ := pure (.ok (some bytes))
  sameLoader bytes other := pure (bytes == other)

def noMethods : ClassFile :=
  { twoMethods with methods := [] }

def demand : Lookup :=
  ⟨"A", true⟩

def question : Lookup :=
  ⟨"A", false⟩

/-- An entry joins the path after the first thread has begun to read. The second thread reads from
that entry, and is done first. -/
def contended : Scene Bool Unit Bytes :=
  let path : List (Entry Bytes) := [.loader twoMethods.bytes]
  let longer : List (Entry Bytes) := .loader noMethods.bytes :: path
  let started : Scene Bool Unit Bytes := start 0 path #[] ()
  let missed := (started.check false demand).check true question
  let begun := missed.assign false (.asking demand path)
  let prepended := { begun with pool := { begun.pool with path := longer } }
  let asking := prepended.assign true (.asking question longer)
  let read := (asking.read bytesAccess false demand (.loader twoMethods.bytes) []).read bytesAccess
    true question (.loader noMethods.bytes) path
  (read.keep true question ⟨"A", noMethods, noMethods.bytes, false, false⟩).keep false demand
    ⟨"A", twoMethods, twoMethods.bytes, false, false⟩

theorem reachable_contended : contended.Reachable bytesAccess := by
  refine ⟨0, [.loader twoMethods.bytes], #[], (), ?_⟩
  refine .tail ?_ (.keep rfl)
  refine .tail ?_ (.keep rfl)
  refine .tail ?_ (.read rfl)
  refine .tail ?_ (.read rfl)
  refine .tail ?_ (.begin rfl)
  refine .tail ?_ (.changePath _)
  refine .tail ?_ (.begin rfl)
  refine .tail ?_ (.check question rfl)
  refine .tail ?_ (.check demand rfl)
  exact .refl

/-- Both threads find the class that the second one has read. -/
theorem shares_classes_contended :
    contended.findings = [⟨question, .ok (some 0)⟩, ⟨demand, .ok (some 0)⟩] ∧
      (∃ cls, contended.classes[0]? = some cls ∧ cls.file = noMethods ∧ cls.name = "A" ∧
        Declares cls.source "A") ∧
      ∀ later, Relation.ReflTransGen (Step bytesAccess) contended later →
        later.pool.classes.lookup "A" = some 0 := by
  obtain ⟨-, hpool, -, -⟩ := shares_classes reachable_contended
  obtain ⟨⟨cls, hcls, hname, hdeclares⟩, hlater⟩ := hpool "A" 0 rfl
  obtain rfl : _ = cls := Option.some.inj hcls
  exact ⟨rfl, ⟨_, hcls, rfl, hname, hdeclares⟩, hlater⟩

end Scene

end Sharing

end ClassWeaver
