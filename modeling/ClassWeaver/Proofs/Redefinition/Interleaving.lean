import ClassWeaver.Lock.Threads
import ClassWeaver.Proofs.Redefinition.Pristine
import Mathlib.Logic.Function.Basic
import Mathlib.Logic.Relation

/-!
Threads that transform and retransform classes of one workspace at the same time.

A transformation holds the lock in shared mode while it fetches the class and while it rewrites
it; a retransformation holds it exclusively from the renewal until the last class is read. The
steps of different threads come in any order. Everything else that is done to a workspace may be
done between any two steps, unless a thread is gathering definitions; what entries have does not
change meanwhile either. Each thread has a history of its retransformations.
-/

set_option autoImplicit false
set_option relaxedAutoImplicit false

namespace ClassWeaver.Redefinition

open Search Workspace Lock

/-! ### Threads and what they are about to do -/

/-- What a thread takes the lock for. -/
inductive Job (Loader Class : Type) where
  /-- Anything else that the thread does while it has the lock. -/
  | hold (mode : Mode)
  | transform (request : Request Loader)
  | retransform (classes : List Class)

inductive Task (Loader Class : Type) where
  | idle
  /-- The thread is in the queue of the lock. -/
  | waiting (job : Job Loader Class)
  | fetching (request : Request Loader)
  | rewriting (transformer : Transformer Loader) (id : ClassId)
  | renewing (classes : List Class)
  /-- The definitions of some classes are gathered, and those of the `rest` are not yet. -/
  | reading (gathered : List (Class × Bytes)) (rest : List Class)
  | submitting (batch : List (Class × Bytes))

/-- What a thread does for a retransformation. -/
inductive Event (World Loader Class : Type) where
  /-- The pool was renewed so as to read `classes`; until then the workspace was like `before`. -/
  | renewed (classes : List Class) (before : Workspace Loader)
  /-- The definitions were gathered, or could not be; either way the lock was given back. -/
  | gathered (outcome : Except Failure (List (Class × Bytes))) (after : Workspace Loader)
    (world : World)
  /-- A batch was handed to the machine, which answered. -/
  | submitted (batch : List (Class × Bytes)) (answer : Except Failure Unit)

structure Scene (Thread World Loader Class : Type) where
  lock : FairLock Thread
  /-- The workspace without the holds, which each thread has its own of. -/
  workspace : Workspace Loader
  world : World
  task : Thread → Task Loader Class
  /-- What each thread has done so far, the last event in front. -/
  history : Thread → List (Event World Loader Class)

variable {Thread World Loader Class : Type}

def Job.mode : Job Loader Class → Mode
  | hold mode => mode
  | transform _ => .shared
  | retransform _ => .exclusive

/-- What a thread does once it has got the lock. -/
def Job.first : Job Loader Class → Task Loader Class
  | hold _ => .idle
  | transform request => .fetching request
  | retransform classes => .renewing classes

/-- What becomes of a thread that asks for the lock. -/
def Job.after (job : Job Loader Class) : Outcome → Task Loader Class
  | .done => job.first
  | .waiting => .waiting job
  | .refused _ => .idle

/-- The mode in which the lock is held during a task. -/
def Task.mode? : Task Loader Class → Option Mode
  | fetching _ | rewriting _ _ => some .shared
  | renewing _ | reading _ _ => some .exclusive
  | idle | waiting _ | submitting _ => none

/-- What a thread does once its gathering has ended. -/
def Task.afterGathering : Except Failure (List (Class × Bytes)) → Task Loader Class
  | .ok batch => submitting batch
  | .error _ => idle

/-! ### The steps of a thread -/

namespace Scene

variable [DecidableEq Thread] (access : Access World Loader)
  (instrumentation : Instrumentation World Loader Class)

/-- Nobody holds the lock, and no thread has done anything. -/
def start (workspace : Workspace Loader) (world : World) : Scene Thread World Loader Class where
  lock := .unlocked
  workspace
  world
  task _ := .idle
  history _ := []

/-- The workspace as a thread has it, with its own holds. -/
def view (scene : Scene Thread World Loader Class) (thread : Thread) : Workspace Loader :=
  { scene.workspace with holds := scene.lock.holds thread }

def assign (scene : Scene Thread World Loader Class) (thread : Thread)
    (task : Task Loader Class) : Scene Thread World Loader Class :=
  { scene with task := Function.update scene.task thread task }

/-- Puts an event into the history of a thread. -/
def note (scene : Scene Thread World Loader Class) (thread : Thread)
    (event : Event World Loader Class) : Scene Thread World Loader Class :=
  { scene with
    history := Function.update scene.history thread (event :: scene.history thread) }

/-- Asks for the lock. -/
def enter (scene : Scene Thread World Loader Class) (thread : Thread) (job : Job Loader Class) :
    Scene Thread World Loader Class :=
  let (lock, outcome) := Threads.lockIn scene.lock job.mode thread
  { scene with lock }.assign thread (job.after outcome)

/-- Looks at the lock again. -/
def look (scene : Scene Thread World Loader Class) (thread : Thread) (job : Job Loader Class) :
    Scene Thread World Loader Class :=
  let (lock, served) := scene.lock.look thread
  { scene with lock }.assign thread (job.after (if served then .done else .waiting))

/-- Gives a hold of the lock back and goes on with another task. -/
def leave (scene : Scene Thread World Loader Class) (thread : Thread) (mode : Mode)
    (task : Task Loader Class) : Scene Thread World Loader Class :=
  { scene with lock := (Threads.unlockIn scene.lock mode thread).1 }.assign thread task

def fetch (scene : Scene Thread World Loader Class) (thread : Thread) (request : Request Loader) :
    Scene Thread World Loader Class :=
  let ended :=
    ((getClassFor access request.loader request.name).run.run (scene.view thread)).run scene.world
  let scene := { scene with workspace := ended.1.2, world := ended.2 }
  match ended.1.1 with
  | .ok id => scene.assign thread (.rewriting request.transformer id)
  | .error _ => scene.leave thread .shared .idle

def rewrite (scene : Scene Thread World Loader Class) (thread : Thread)
    (transformer : Transformer Loader) (id : ClassId) : Scene Thread World Loader Class :=
  let ended := ((edit id transformer.weave).run.run (scene.view thread)).run scene.world
  { scene with workspace := ended.1.2, world := ended.2 }.leave thread .shared .idle

def renew (scene : Scene Thread World Loader Class) (thread : Thread) (classes : List Class) :
    Scene Thread World Loader Class :=
  let ended := ((Workspace.renew true).run (scene.view thread)).run scene.world
  let next := { scene with workspace := ended.1.2, world := ended.2 }
  (next.note thread (.renewed classes (scene.view thread))).assign thread (.reading [] classes)

/-- Ends a gathering and gives the lock back. -/
def finish (scene : Scene Thread World Loader Class) (thread : Thread)
    (outcome : Except Failure (List (Class × Bytes))) : Scene Thread World Loader Class :=
  (scene.note thread (.gathered outcome (scene.view thread) scene.world)).leave thread .exclusive
    (.afterGathering outcome)

/-- Reads the definition of the next class. -/
def read (scene : Scene Thread World Loader Class) (thread : Thread)
    (gathered : List (Class × Bytes)) (cls : Class) (rest : List Class) :
    Scene Thread World Loader Class :=
  let ended := ((definition access instrumentation gathered.length cls).run.run
    (scene.view thread)).run scene.world
  let scene := { scene with workspace := ended.1.2, world := ended.2 }
  match ended.1.1 with
  | .ok entry => scene.assign thread (.reading (gathered ++ [entry]) rest)
  | .error failure => scene.finish thread (.error failure)

/-- Hands a batch to the machine. -/
def submit (scene : Scene Thread World Loader Class) (thread : Thread)
    (batch : List (Class × Bytes)) : Scene Thread World Loader Class :=
  let ended := (instrumentation.redefine batch).run scene.world
  ({ scene with world := ended.2 }.note thread (.submitted batch ended.1)).assign thread .idle

/-- What a thread does next by itself; without a task that is nothing. -/
def advance (thread : Thread) (scene : Scene Thread World Loader Class) :
    Scene Thread World Loader Class :=
  match scene.task thread with
  | .idle | .waiting _ => scene
  | .fetching request => scene.fetch access thread request
  | .rewriting transformer id => scene.rewrite thread transformer id
  | .renewing classes => scene.renew thread classes
  | .reading gathered [] => scene.finish thread (.ok gathered)
  | .reading gathered (cls :: rest) =>
    scene.read access instrumentation thread gathered cls rest
  | .submitting batch => scene.submit instrumentation thread batch

/-- Whether any thread is gathering definitions. -/
def Gathers (scene : Scene Thread World Loader Class) : Prop :=
  ∃ thread gathered rest, scene.task thread = .reading gathered rest

/-- What may happen next. -/
inductive Step : Scene Thread World Loader Class → Scene Thread World Loader Class → Prop
  | enter {scene thread} (job : Job Loader Class) (hidle : scene.task thread = .idle) :
    Step scene (scene.enter thread job)
  | look {scene thread job} (hwaiting : scene.task thread = .waiting job) :
    Step scene (scene.look thread job)
  | leave {scene thread} (mode : Mode) (hidle : scene.task thread = .idle) :
    Step scene (scene.leave thread mode .idle)
  | advance {scene thread} (hcalm : ∀ batch, scene.task thread = .submitting batch →
      scene.Gathers → access.contents (scene.submit instrumentation thread batch).world =
        access.contents scene.world) :
    Step scene (scene.advance access instrumentation thread)
  /-- The world goes on by itself. -/
  | drift {scene} (world : World)
      (hcalm : scene.Gathers → access.contents world = access.contents scene.world) :
    Step scene { scene with world }
  /-- Anything is done to the workspace. -/
  | change {scene} (workspace : Workspace Loader) (hfree : ¬scene.Gathers) :
    Step scene { scene with workspace }

/-- What may come about in the course of time, from any workspace. -/
def Reachable (scene : Scene Thread World Loader Class) : Prop :=
  ∃ workspace world, Relation.ReflTransGen (Step access instrumentation) (start workspace world)
    scene

variable {access instrumentation}

theorem Reachable.step {scene later : Scene Thread World Loader Class}
    (h : scene.Reachable access instrumentation)
    (hstep : Step access instrumentation scene later) :
    later.Reachable access instrumentation := by
  obtain ⟨workspace, world, hsteps⟩ := h
  exact ⟨workspace, world, hsteps.tail hstep⟩

end Scene

end ClassWeaver.Redefinition
