import ClassWeaver.Proofs.Workspace.Lookup
import ClassWeaver.Proofs.Workspace.Registrations
import ClassWeaver.Proofs.Workspace.Rewriting
import ClassWeaver.Proofs.Workspace.Searching

/-!
Classes that are asked for through their loaders.

A lookup asks the entries of the search path in order, up to the first that has the class
(`Searches`), and leaves everything but that class as it was (`Looks`). A request through a loader
is one lookup if the class is found; otherwise the loader joins the end of the search path, unless
one like it was added there before, and the lookup is made again (`Requests`). Whatever is done with
a workspace in the course of time, a loader is recorded at most once until the record is emptied
(`widened_of_reachable`), also if the search path is changed behind the back of the record.
-/

set_option autoImplicit false
set_option relaxedAutoImplicit false

namespace ClassWeaver.Widening

open Search Workspace SearchPath

variable {World Loader : Type} {access : Access World Loader} {worlds : World → Prop}
  {alike : Entry Loader → Entry Loader → Bool} {workspace built after : Workspace Loader}
  {pool : ClassPool Loader} {name : String} {path : List (Entry Loader)}
  {world opened later : World}

/-! ### What is asked -/

/-- The entries are asked in order, and none has the class. -/
inductive Passes (access : Access World Loader) (name : String) :
    List (Entry Loader) → World → World → Prop
  | nil (world : World) : Passes access name [] world world
  | cons {entry : Entry Loader} {rest : List (Entry Loader)} {world middle later : World}
    (hentry : (entry.findClass access name).run world = (.ok none, middle))
    (hrest : Passes access name rest middle later) : Passes access name (entry :: rest) world later

/-- What the entries of a path answer that are asked in order, and in which world that ends. Behind
the first entry that has the class, or that cannot be read, none is asked. -/
inductive Searches (access : Access World Loader) (name : String) (path : List (Entry Loader))
    (world : World) : Except Failure (Option Bytes) → World → Prop
  | missing {later : World} (hpath : Passes access name path world later) :
    Searches access name path world (.ok none) later
  | has {front back : List (Entry Loader)} {entry : Entry Loader} {middle later : World}
    {bytes : Bytes} (hpath : path = front ++ entry :: back)
    (hfront : Passes access name front world middle)
    (hentry : (entry.findClass access name).run middle = (.ok (some bytes), later)) :
    Searches access name path world (.ok (some bytes)) later
  | unreadable {front back : List (Entry Loader)} {entry : Entry Loader} {middle later : World}
    {cause : Unreadable} (hpath : path = front ++ entry :: back)
    (hfront : Passes access name front world middle)
    (hentry : (entry.findClass access name).run middle = (.error cause, later)) :
    Searches access name path world (.error (.unreadable name)) later

theorem exists_searches (access : Access World Loader) (name : String) (path : List (Entry Loader))
    (world : World) : ∃ outcome later, Searches access name path world outcome later := by
  induction path generalizing world with
  | nil => exact ⟨_, _, .missing (.nil world)⟩
  | cons entry rest ih =>
    rcases hentry : (entry.findClass access name).run world with ⟨answer, middle⟩
    match answer, hentry with
    | .error _, hentry => exact ⟨_, _, .unreadable (List.nil_append _).symm (.nil world) hentry⟩
    | .ok (some _), hentry => exact ⟨_, _, .has (List.nil_append _).symm (.nil world) hentry⟩
    | .ok none, hentry =>
      obtain ⟨outcome, later, hrest⟩ := ih middle
      refine ⟨outcome, later, ?_⟩
      cases hrest with
      | missing hpath => exact .missing (.cons hentry hpath)
      | has hpath hfront hlast =>
        exact .has (congrArg (entry :: ·) hpath) (.cons hentry hfront) hlast
      | unreadable hpath hfront hlast =>
        exact .unreadable (congrArg (entry :: ·) hpath) (.cons hentry hfront) hlast

/-- Entries that do not have the class are passed by. -/
theorem Passes.runs {front : List (Entry Loader)} {middle : World}
    {outcome : Except Failure (Option Bytes)} (h : Passes access name front world middle)
    (hpath : Runs (readFirst access name path) workspace middle outcome workspace later) :
    Runs (readFirst access name (front ++ path)) workspace world outcome workspace later := by
  induction h with
  | nil => exact hpath
  | cons hentry _ ih => exact (runs_query hentry).bind (ih hpath)

theorem Searches.runs {outcome : Except Failure (Option Bytes)}
    (h : Searches access name path world outcome later) :
    Runs (readFirst access name path) workspace world outcome workspace later := by
  cases h with
  | missing hpath =>
    have hend : Runs (readFirst access name []) workspace later (.ok none) workspace later := rfl
    rw [← List.append_nil path]
    exact hpath.runs hend
  | has hpath hfront hentry =>
    rw [hpath]
    exact hfront.runs ((runs_query hentry).bind rfl)
  | unreadable hpath hfront hentry =>
    rw [hpath]
    exact hfront.runs ((runs_query hentry).bind rfl)

section Stays

variable (hstays : access.StaysIn worlds) (hworld : worlds world)
include hstays hworld

theorem stays_of_findClass {entry : Entry Loader} {answer : Except Unreadable (Option Bytes)}
    (h : (entry.findClass access name).run world = (answer, later)) : worlds later := by
  have hlater := hstays.findClass entry name world hworld
  rwa [h] at hlater

theorem Passes.stays (h : Passes access name path world later) : worlds later := by
  induction h with
  | nil => exact hworld
  | cons hentry _ ih => exact ih (stays_of_findClass hstays hworld hentry)

theorem Searches.stays {outcome : Except Failure (Option Bytes)}
    (h : Searches access name path world outcome later) : worlds later := by
  cases h with
  | missing hpath => exact hpath.stays hstays hworld
  | has _ hfront hentry | unreadable _ hfront hentry =>
    exact stays_of_findClass hstays (hfront.stays hstays hworld) hentry

end Stays

/-! ### What a lookup comes to -/

/-- What looking a class up comes to in a workspace with that pool. -/
inductive Looks (access : Access World Loader) (name : String) (workspace : Workspace Loader)
    (pool : ClassPool Loader) (world : World) :
    Except Failure ClassId → Workspace Loader → World → Prop
  | known {id : ClassId} (hid : pool.classes.lookup name = some id) :
    Looks access name workspace pool world (.ok id) workspace world
  | read {bytes : Bytes} {cls : EditableClass} {later : World}
    (hnew : pool.classes.lookup name = none)
    (hsearch : Searches access name pool.path world (.ok (some bytes)) later)
    (hparse : EditableClass.parse name bytes = .ok cls) :
    Looks access name workspace pool world (.ok workspace.classes.size)
      (workspace.withClass pool name cls) later
  | rejected {bytes : Bytes} {failure : Failure} {later : World}
    (hnew : pool.classes.lookup name = none)
    (hsearch : Searches access name pool.path world (.ok (some bytes)) later)
    (hparse : EditableClass.parse name bytes = .error failure) :
    Looks access name workspace pool world (.error failure) workspace later
  | failed {failure : Failure} {later : World} (hnew : pool.classes.lookup name = none)
    (hsearch : Searches access name pool.path world (.error failure) later) :
    Looks access name workspace pool world (.error failure) workspace later
  | missing {later : World} (hnew : pool.classes.lookup name = none)
    (hsearch : Searches access name pool.path world (.ok none) later) :
    Looks access name workspace pool world (.error (.classNotFound name)) workspace later

theorem exists_looks (access : Access World Loader) (name : String) (workspace : Workspace Loader)
    (pool : ClassPool Loader) (world : World) :
    ∃ outcome after later, Looks access name workspace pool world outcome after later := by
  cases hlookup : pool.classes.lookup name with
  | some id => exact ⟨_, _, _, .known hlookup⟩
  | none =>
    obtain ⟨answer, later, hsearch⟩ := exists_searches access name pool.path world
    match answer, hsearch with
    | .error _, hsearch => exact ⟨_, _, _, .failed hlookup hsearch⟩
    | .ok none, hsearch => exact ⟨_, _, _, .missing hlookup hsearch⟩
    | .ok (some bytes), hsearch =>
      cases hparse : EditableClass.parse name bytes with
      | error failure => exact ⟨_, _, _, .rejected hlookup hsearch hparse⟩
      | ok cls => exact ⟨_, _, _, .read hlookup hsearch hparse⟩

section Looks

variable {outcome : Except Failure ClassId}

theorem Looks.runs (h : Looks access (ClassName.dotted name) built pool opened outcome after later)
    (hpool : ((currentPool access).run workspace).run world = ((pool, built), opened)) :
    Runs (getClass access name) workspace world outcome after later := by
  have hopen := runs_lift hpool
  cases h with
  | @known id hid =>
    have hfound : Runs (findInPool access (ClassName.dotted name)) workspace world (.ok (some id))
        built opened := hopen.bind (by rw [hid]; rfl)
    exact hfound.bind rfl
  | @read bytes cls _ hnew hsearch hparse =>
    have hfound : Runs (findInPool access (ClassName.dotted name)) workspace world
        (.ok (some built.classes.size)) (built.withClass pool (ClassName.dotted name) cls)
        later := by
      refine hopen.bind ?_
      rw [hnew]
      refine hsearch.runs.bind ?_
      dsimp only
      have hget : Runs (get : FailingWork World Loader _) built later (.ok built) built later := rfl
      rw [hparse]
      refine hget.bind ?_
      rw [ClassPool.keep_of_lookup_eq_none hnew]
      rfl
    exact hfound.bind rfl
  | rejected hnew hsearch hparse =>
    refine Runs.bind_of_error (hopen.bind ?_)
    rw [hnew]
    refine hsearch.runs.bind ?_
    dsimp only
    rw [hparse]
    rfl
  | failed hnew hsearch =>
    refine Runs.bind_of_error (hopen.bind ?_)
    rw [hnew]
    exact hsearch.runs.bind_of_error
  | missing hnew hsearch =>
    have hfound : Runs (findInPool access (ClassName.dotted name)) workspace world (.ok none)
        built later := by
      refine hopen.bind ?_
      rw [hnew]
      exact hsearch.runs.bind rfl
    exact hfound.bind rfl

theorem Looks.stays (hstays : access.StaysIn worlds) (hworld : worlds world)
    (h : Looks access name workspace pool world outcome after later) : worlds later := by
  cases h with
  | known => exact hworld
  | read _ hsearch | rejected _ hsearch | failed _ hsearch | missing _ hsearch =>
    exact hsearch.stays hstays hworld

theorem Looks.after_of_error {failure : Failure}
    (h : Looks access name workspace pool world (.error failure) after later) :
    after = workspace := by
  cases h with
  | rejected | failed | missing => rfl

/-- A class that is found was in the pool, and nothing was asked; or it was read, and nothing was
asked behind the entry that has it. -/
theorem Looks.asked {id : ClassId}
    (h : Looks access name workspace pool world (.ok id) after later) :
    pool.classes.lookup name = some id ∧ after = workspace ∧ later = world ∨
      ∃ front entry back middle bytes, pool.path = front ++ entry :: back ∧
        Passes access name front world middle ∧
        (entry.findClass access name).run middle = (.ok (some bytes), later) := by
  cases h with
  | known hid => exact .inl ⟨hid, rfl, rfl⟩
  | read _ hsearch _ =>
    cases hsearch with
    | has hpath hfront hentry => exact .inr ⟨_, _, _, _, _, hpath, hfront, hentry⟩

theorem Looks.registry_eq (h : Looks access name workspace pool world outcome after later) :
    after.registry = workspace.registry := by
  cases h with
  | known | read | rejected | failed | missing => rfl

/-- What a lookup leaves of the pool: it may have one class more. -/
theorem Looks.exists_pool (h : Looks access name workspace pool world outcome after later)
    (hpool : workspace.pool = some pool) :
    ∃ last, after.pool = some last ∧ last.path = pool.path ∧
      ∀ other id, pool.classes.lookup other = some id → last.classes.lookup other = some id := by
  cases h with
  | known | rejected | failed | missing => exact ⟨pool, hpool, rfl, fun _ _ hid ↦ hid⟩
  | read hnew => exact ⟨_, rfl, rfl, fun _ _ hid ↦ ClassPool.lookup_cons_eq_some hnew hid⟩

/-- The classes that were read before are where they were. -/
theorem Looks.classes (h : Looks access name workspace pool world outcome after later)
    {id : ClassId} {cls : EditableClass} (hcls : workspace.classes[id]? = some cls) :
    after.classes[id]? = some cls := by
  cases h with
  | known | rejected | failed | missing => exact hcls
  | read =>
    obtain ⟨hlt, -⟩ := Array.getElem?_eq_some_iff.mp hcls
    exact (Array.getElem?_push_lt hlt).trans ((Array.getElem?_eq_getElem hlt).symm.trans hcls)

end Looks

/-! ### What a request comes to -/

/-- What asking for a class through a loader comes to in a workspace with that pool. -/
inductive Requests (access : Access World Loader) (alike : Entry Loader → Entry Loader → Bool)
    (loader : Loader) (name : String) (workspace : Workspace Loader) (pool : ClassPool Loader)
    (world : World) : Except Failure ClassId → Workspace Loader → World → Prop
  | found {id : ClassId} {after : Workspace Loader} {later : World}
    (hfound : Looks access name workspace pool world (.ok id) after later) :
    Requests access alike loader name workspace pool world (.ok id) after later
  /-- The loader joins the search path. -/
  | joined {failure : Failure} {middle turned : World} {outcome : Except Failure ClassId}
    {after : Workspace Loader} {later : World}
    (hmissed : Looks access name workspace pool world (.error failure) workspace middle)
    (hnew : ¬Knows alike (workspace.registry.recorded .back) (.loader loader))
    (hadd : ((addToPath access .back (.loader loader)).run workspace).run middle =
      ((true, workspace.withEntry pool .back (.loader loader)), turned))
    (hagain : Looks access name (workspace.withEntry pool .back (.loader loader))
      { pool with path := pool.path ++ [.loader loader] } turned outcome after later) :
    Requests access alike loader name workspace pool world outcome after later
  /-- A loader like it joined the search path before. -/
  | repeated {failure : Failure} {middle turned : World} {outcome : Except Failure ClassId}
    {after : Workspace Loader} {later : World}
    (hmissed : Looks access name workspace pool world (.error failure) workspace middle)
    (hknown : Knows alike (workspace.registry.recorded .back) (.loader loader))
    (hadd : ((addToPath access .back (.loader loader)).run workspace).run middle =
      ((false, workspace), turned))
    (hagain : Looks access name workspace pool turned outcome after later) :
    Requests access alike loader name workspace pool world outcome after later

section Requests

variable {loader : Loader} {outcome : Except Failure ClassId}

theorem getClass?_run (h : Runs (getClass access name) workspace world outcome after later) :
    ((getClass? access name).run workspace).run world = ((outcome.toOption, after), later) := by
  rw [getClass?, StateT.run_bind, StateT.run_bind, h]
  cases outcome with
  | ok id => rfl
  | error failure => rfl

/-- A request is answered by its lookup if that finds the class. -/
theorem runs_getClassFor_of_ok {id : ClassId}
    (h : Runs (getClass access name) workspace world (.ok id) after later) :
    Runs (getClassFor access (some loader) name) workspace world (.ok id) after later :=
  (runs_lift (getClass?_run h)).bind rfl

/-- A request whose lookup fails adds the loader, and looks the class up again. -/
theorem runs_getClassFor_of_error {failure : Failure} {between widened : Workspace Loader}
    {middle turned : World} {new : Bool}
    (h : Runs (getClass access name) workspace world (.error failure) between middle)
    (hadd : ((addToPath access .back (.loader loader)).run between).run middle =
      ((new, widened), turned))
    (hagain : Runs (getClass access name) widened turned outcome after later) :
    Runs (getClassFor access (some loader) name) workspace world outcome after later :=
  (runs_lift (getClass?_run h)).bind ((runs_lift hadd).bind hagain)

theorem currentPool_run (hpool : workspace.pool = some pool) (world : World) :
    ((currentPool access).run workspace).run world = ((pool, workspace), world) := by
  have hmeets : Meets (· = world) (currentPool access) workspace fun own after ↦
      own = pool ∧ after = workspace := by
    refine meets_bind (meets_get ?_)
    rw [hpool]
    exact meets_pure ⟨rfl, rfl⟩
  obtain ⟨hworld, hown, hafter⟩ := hmeets world rfl
  exact Prod.ext (Prod.ext hown hafter) hworld

theorem Requests.runs
    (h : Requests access alike loader (ClassName.dotted name) built pool opened outcome after later)
    (hpool : ((currentPool access).run workspace).run world = ((pool, built), opened))
    (hbuilt : built.pool = some pool) :
    Runs (getClassFor access (some loader) name) workspace world outcome after later := by
  cases h with
  | found hfound => exact runs_getClassFor_of_ok (hfound.runs hpool)
  | joined hmissed _ hadd hagain =>
    exact runs_getClassFor_of_error (hmissed.runs hpool) hadd
      (hagain.runs (currentPool_run rfl _))
  | repeated hmissed _ hadd hagain =>
    exact runs_getClassFor_of_error (hmissed.runs hpool) hadd
      (hagain.runs (currentPool_run hbuilt _))

/-- A request always comes to something. -/
theorem exists_requests (hdiscerns : access.Discerns worlds alike) (hstays : access.StaysIn worlds)
    (h : workspace.Replayable alike) (hpool : workspace.pool = some pool) (hworld : worlds world)
    (loader : Loader) (name : String) : ∃ outcome after later, worlds later ∧
      Requests access alike loader name workspace pool world outcome after later := by
  obtain ⟨first, between, middle, hfirst⟩ := exists_looks access name workspace pool world
  have hmiddle := hfirst.stays hstays hworld
  cases first with
  | ok id => exact ⟨_, _, _, hmiddle, .found hfirst⟩
  | error failure =>
    obtain rfl := hfirst.after_of_error
    obtain ⟨hturned, other, built, hprovides, hnew, hafter⟩ :=
      h.addToPath_adds hdiscerns .back (.loader loader) middle hmiddle
    obtain ⟨rfl, rfl⟩ := hprovides.of_pool hpool
    rcases hadd : ((addToPath access .back (.loader loader)).run built).run middle with
      ⟨⟨new, widened⟩, turned⟩
    rw [hadd] at hturned hnew hafter
    cases new with
    | true =>
      obtain rfl : widened = built.withEntry other .back (.loader loader) := hafter
      obtain ⟨outcome, after, later, hagain⟩ := exists_looks access name
        (built.withEntry other .back (.loader loader))
        { other with path := other.path ++ [.loader loader] } turned
      exact ⟨outcome, after, later, hagain.stays hstays hturned,
        .joined hfirst (hnew.mp rfl) hadd hagain⟩
    | false =>
      obtain rfl : widened = built := hafter
      obtain ⟨outcome, after, later, hagain⟩ := exists_looks access name widened other turned
      have hknown := Decidable.not_not.mp fun h ↦ Bool.false_ne_true (hnew.mpr h)
      exact ⟨outcome, after, later, hagain.stays hstays hturned,
        .repeated hfirst hknown hadd hagain⟩

/-- The classes of the pool that a class was asked for in are in the pool still. -/
theorem Requests.exists_pool (hpool : workspace.pool = some pool)
    (h : Requests access alike loader name workspace pool world outcome after later) :
    ∃ last, after.pool = some last ∧
      ∀ other id, pool.classes.lookup other = some id → last.classes.lookup other = some id := by
  cases h with
  | found hfound =>
    obtain ⟨last, hlast, -, hclasses⟩ := hfound.exists_pool hpool
    exact ⟨last, hlast, hclasses⟩
  | joined _ _ _ hagain =>
    obtain ⟨last, hlast, -, hclasses⟩ := hagain.exists_pool rfl
    exact ⟨last, hlast, hclasses⟩
  | repeated _ _ _ hagain =>
    obtain ⟨last, hlast, -, hclasses⟩ := hagain.exists_pool hpool
    exact ⟨last, hlast, hclasses⟩

theorem Requests.classes
    (h : Requests access alike loader name workspace pool world outcome after later)
    {id : ClassId} {cls : EditableClass} (hcls : workspace.classes[id]? = some cls) :
    after.classes[id]? = some cls := by
  cases h with
  | found hlooks | joined _ _ _ hlooks | repeated _ _ _ hlooks => exact hlooks.classes hcls

end Requests

/-! ### Histories -/

/-- What a request does to the search path. -/
def additions (access : Access World Loader) (loader : Option Loader) (name : String)
    (workspace : Workspace Loader) (world : World) : List (Event Loader) :=
  match loader with
  | none => []
  | some loader =>
    match ((getClass? access name).run workspace).run world with
    | ((some _, _), _) => []
    | ((none, between), middle) =>
      let added := (addToPath access .back (.loader loader)).run between
      [.added .back (.loader loader) (added.run middle).1.1]

/-- A workspace, and what was done to its search path. -/
structure History (World Loader : Type) where
  workspace : Workspace Loader
  world : World
  /-- The latest event comes first. -/
  events : List (Event Loader)

namespace History

/-- Nothing has been done to the search path. -/
def start (system : List (Entry Loader)) (world : World) : History World Loader :=
  ⟨.ofSystem system, world, []⟩

/-- Does `work`, and keeps what that has done to the search path. -/
def does {α : Type} (history : History World Loader) (work : Work World Loader α)
    (events : α → List (Event Loader)) : History World Loader :=
  let ended := (work.run history.workspace).run history.world
  ⟨ended.1.2, ended.2, events ended.1.1 ++ history.events⟩

variable (access : Access World Loader) (worlds : World → Prop)

/-- What may be done next. -/
inductive Step : History World Loader → History World Loader → Prop
  | look {history} (name : String) :
    Step history (history.does (getClass access name).run fun _ ↦ [])
  | request {history} (loader : Option Loader) (name : String) :
    Step history (history.does (getClassFor access loader name).run fun _ ↦
      additions access loader name history.workspace history.world)
  | ask {history} : Step history (history.does (currentPool access) fun _ ↦ [])
  | add {history} (side : Side) (entry : Entry Loader) :
    Step history (history.does (addToPath access side entry) fun new ↦ [.added side entry new])
  | extend {history} (entry : Entry Loader) :
    Step history (history.does (addToSystem access entry) fun new ↦ [.extended entry new])
  | renew {history} (preserve : Bool) :
    Step history (history.does (Workspace.renew preserve) fun _ ↦ [.renewed preserve])
  /-- The search path of the pool is changed behind the back of the record. -/
  | change {history} (change : List (Entry Loader) → List (Entry Loader)) :
    Step history (history.does (changePath access change) fun _ ↦ [])
  | edit {history} {α : Type} (id : ClassId) (change : ClassEdit Id α) :
    Step history (history.does (Workspace.edit id change).run fun _ ↦ [])
  | hold {history} (holds : Lock.Holds) :
    Step history { history with workspace := { history.workspace with holds } }
  /-- The world goes on by itself. -/
  | drift {history} (world : World) (hworld : worlds world) : Step history { history with world }

/-- What may come about in the course of time. -/
def Reachable (system : List (Entry Loader)) (history : History World Loader) : Prop :=
  ∃ world, worlds world ∧ Relation.ReflTransGen (Step access worlds) (start system world) history

/-- A history whose record is what was added to the search path. -/
structure Sound (alike : Entry Loader → Entry Loader → Bool) (worlds : World → Prop)
    (history : History World Loader) : Prop where
  world : worlds history.world
  replayable : history.workspace.Replayable alike
  recorded : ∀ side, history.workspace.registry.recorded side = registered side history.events

/-- The workspace can be replayed still, and `events` say what became of the record. -/
structure Records (alike : Entry Loader → Entry Loader → Bool) (events : List (Event Loader))
    (before after : Workspace Loader) : Prop where
  replayable : after.Replayable alike
  recorded : ∀ side, after.registry.recorded side =
    events.foldr (Event.register side) (before.registry.recorded side)

end History

section Sound

variable {history : History World Loader} {events : List (Event Loader)}
  {system : List (Entry Loader)}

open History

/-- Whoever has a pool can be replayed, as long as the record has no repetitions. -/
theorem records_of_pool (hpool : after.pool = some pool) (h : after.registry.Distinct alike)
    (hrecorded : ∀ side, after.registry.recorded side =
      events.foldr (Event.register side) (workspace.registry.recorded side)) :
    Records alike events workspace after :=
  ⟨⟨h, fun hnone ↦ by cases hpool.symm.trans hnone⟩, hrecorded⟩

theorem records_of_eq (h : workspace.Replayable alike)
    (hregistry : after.registry = workspace.registry)
    (hpool : after.pool = none → workspace.pool = none) : Records alike [] workspace after := by
  refine ⟨⟨?_, fun hnone ↦ ?_⟩, fun side ↦ ?_⟩
  · rw [hregistry]
    exact h.distinct
  · rw [hregistry]
    exact h.kept (hpool hnone)
  · rw [hregistry]
    rfl

/-- What leaves the registry alone and ends with a pool has done nothing to the search path. -/
theorem records_nil (h : workspace.Replayable alike) (hpool : after.pool = some pool)
    (hregistry : after.registry = workspace.registry) : Records alike [] workspace after :=
  records_of_eq h hregistry fun hnone ↦ by cases hpool.symm.trans hnone

theorem History.Sound.does {α : Type} {work : Work World Loader α} {told : α → List (Event Loader)}
    (h : history.Sound alike worlds)
    (hwork : let ended := (work.run history.workspace).run history.world
      worlds ended.2 ∧ Records alike (told ended.1.1) history.workspace ended.1.2) :
    (history.does work told).Sound alike worlds := by
  obtain ⟨hworld, hrecords⟩ := hwork
  refine ⟨hworld, hrecords.replayable, fun side ↦ (hrecords.recorded side).trans ?_⟩
  rw [h.recorded side]
  exact (List.foldr_append ..).symm

theorem History.Sound.meets {α : Type} {work : Work World Loader α}
    {told : α → List (Event Loader)} (h : history.Sound alike worlds)
    (hwork : Meets worlds work history.workspace fun answer after ↦
      Records alike (told answer) history.workspace after) :
    (history.does work told).Sound alike worlds :=
  h.does (hwork history.world h.world)

theorem records_addition {side : Side} {entry : Entry Loader} {new : Bool}
    (h : workspace.Replayable alike) (hpool : after.pool = some pool)
    (hnew : new = true → ¬Knows alike (workspace.registry.recorded side) entry)
    (hregistry : after.registry =
      if new then workspace.registry.add side entry else workspace.registry) :
    Records alike [.added side entry new] workspace after := by
  cases new with
  | true =>
    refine records_of_pool hpool ?_ fun other ↦ ?_
    · rw [hregistry]
      exact h.distinct.add (hnew rfl)
    · rw [hregistry]
      exact Registry.recorded_add _ side other entry
  | false =>
    refine records_of_pool hpool ?_ fun other ↦ ?_
    · rw [hregistry]
      exact h.distinct
    · rw [hregistry]
      rfl

/-- A request records what it adds. -/
theorem Requests.records {loader : Loader} {outcome : Except Failure ClassId}
    (h : Requests access alike loader (ClassName.dotted name) built pool opened outcome after later)
    (hpool : ((currentPool access).run workspace).run world = ((pool, built), opened))
    (hprovides : workspace.Provides pool built) (hreplayable : workspace.Replayable alike) :
    Records alike (additions access (some loader) name workspace world) workspace after := by
  have hbuilt := hprovides.registry_eq
  cases h with
  | found hfound =>
    obtain ⟨last, hlast, -⟩ := hfound.exists_pool hprovides.pool_eq
    rw [additions, getClass?_run (hfound.runs hpool)]
    exact records_nil hreplayable hlast (hfound.registry_eq.trans hbuilt)
  | joined hmissed hnew hadd hagain =>
    obtain ⟨last, hlast, -⟩ := hagain.exists_pool rfl
    rw [hbuilt] at hnew
    rw [additions, getClass?_run (hmissed.runs hpool)]
    dsimp only [Except.toOption]
    rw [hadd]
    refine records_addition hreplayable hlast (fun _ ↦ hnew) (hagain.registry_eq.trans ?_)
    rw [withEntry, hbuilt, if_pos rfl]
  | repeated hmissed _ hadd hagain =>
    obtain ⟨last, hlast, -⟩ := hagain.exists_pool hprovides.pool_eq
    rw [additions, getClass?_run (hmissed.runs hpool)]
    dsimp only [Except.toOption]
    rw [hadd]
    exact records_addition hreplayable hlast (absurd · Bool.false_ne_true)
      (hagain.registry_eq.trans hbuilt)

theorem renew_records (h : workspace.Replayable alike) (preserve : Bool) :
    Meets worlds (Workspace.renew preserve : Work World Loader Unit) workspace fun _ after ↦
      Records alike [.renewed preserve] workspace after := by
  refine (renew_renews preserve).imp ?_
  rintro _ after rfl
  refine ⟨h.renewed preserve, fun side ↦ (Registry.recorded_renew _ preserve side).trans ?_⟩
  cases preserve with
  | true => rfl
  | false => rfl

/-- Edits of classes leave the search path alone. -/
theorem edit_records (h : workspace.Replayable alike) {α : Type} (id : ClassId)
    (change : ClassEdit Id α) : Meets worlds (Workspace.edit id change).run workspace fun _ after ↦
      Records alike [] workspace after := by
  intro world hworld
  cases hcls : workspace.classes[id]? with
  | none =>
    rw [Rewriting.Scene.edit_run_of_none change world hcls]
    exact ⟨hworld, records_of_eq h rfl fun hnone ↦ hnone⟩
  | some cls =>
    rw [Rewriting.Scene.edit_run change world hcls]
    exact ⟨hworld, records_of_eq h rfl fun hnone ↦ hnone⟩

variable (hdiscerns : access.Discerns worlds alike)
include hdiscerns

theorem addToPath_records (h : workspace.Replayable alike) (side : Side) (entry : Entry Loader) :
    Meets worlds (addToPath access side entry) workspace fun new after ↦
      Records alike [.added side entry new] workspace after := by
  refine (h.addToPath_adds hdiscerns side entry).imp ?_
  rintro new after ⟨pool, built, hprovides, hnew, rfl⟩
  have hbuilt := hprovides.registry_eq
  cases new with
  | true =>
    refine records_addition h rfl hnew.mp ?_
    rw [if_pos rfl, if_pos rfl, withEntry, hbuilt]
  | false => exact records_addition h hprovides.pool_eq (absurd · Bool.false_ne_true) hbuilt

theorem addToSystem_records (h : workspace.Replayable alike) (entry : Entry Loader) :
    Meets worlds (addToSystem access entry) workspace fun new after ↦
      Records alike [.extended entry new] workspace after := by
  refine (addToSystem_adds hdiscerns entry).imp ?_
  rintro new after ⟨-, rfl⟩
  cases new with
  | true => exact ⟨h.withSystemEntry entry, recorded_withSystemEntry _ entry⟩
  | false => exact ⟨h, fun _ ↦ rfl⟩

theorem changePath_records (h : workspace.Replayable alike)
    (change : List (Entry Loader) → List (Entry Loader)) :
    Meets worlds (changePath access change) workspace fun _ after ↦
      Records alike [] workspace after := by
  refine meets_bind ((h.currentPool_provides hdiscerns).imp fun pool built hprovides ↦ ?_)
  exact meets_modify (records_of_eq h hprovides.registry_eq nofun)

variable (hstays : access.StaysIn worlds)
include hstays

theorem getClass_records (h : workspace.Replayable alike) (name : String) :
    Meets worlds (getClass access name).run workspace fun _ after ↦
      Records alike [] workspace after := by
  intro world hworld
  obtain ⟨hopened, hprovides⟩ := h.currentPool_provides hdiscerns world hworld
  rcases hpool : ((currentPool access).run workspace).run world with ⟨⟨pool, built⟩, opened⟩
  rw [hpool] at hopened hprovides
  obtain ⟨outcome, after, later, hlooks⟩ :=
    exists_looks access (ClassName.dotted name) built pool opened
  have hrun : ((getClass access name).run.run workspace).run world = ((outcome, after), later) :=
    hlooks.runs hpool
  rw [hrun]
  obtain ⟨last, hlast, -⟩ := hlooks.exists_pool hprovides.pool_eq
  have hregistry := hlooks.registry_eq.trans hprovides.registry_eq
  exact ⟨hlooks.stays hstays hopened, records_nil h hlast hregistry⟩

theorem getClassFor_records (h : workspace.Replayable alike) (hworld : worlds world)
    (loader : Option Loader) (name : String) :
    let ended := ((getClassFor access loader name).run.run workspace).run world
    worlds ended.2 ∧
      Records alike (additions access loader name workspace world) workspace ended.1.2 := by
  cases loader with
  | none => exact getClass_records hdiscerns hstays h name world hworld
  | some loader =>
    obtain ⟨hopened, hprovides⟩ := h.currentPool_provides hdiscerns world hworld
    rcases hpool : ((currentPool access).run workspace).run world with ⟨⟨pool, built⟩, opened⟩
    rw [hpool] at hopened hprovides
    obtain ⟨outcome, after, later, hlater, hrequests⟩ := exists_requests hdiscerns hstays
      (hprovides.replayable h) hprovides.pool_eq hopened loader (ClassName.dotted name)
    have hrun : ((getClassFor access (some loader) name).run.run workspace).run world =
        ((outcome, after), later) := hrequests.runs hpool hprovides.pool_eq
    rw [hrun]
    exact ⟨hlater, hrequests.records hpool hprovides h⟩

theorem History.Sound.step {next : History World Loader} (h : history.Sound alike worlds)
    (hstep : Step access worlds history next) : next.Sound alike worlds := by
  have hreplayable := h.replayable
  cases hstep with
  | look name => exact h.meets (getClass_records hdiscerns hstays hreplayable name)
  | request loader name =>
    exact h.does (getClassFor_records hdiscerns hstays hreplayable h.world loader name)
  | ask =>
    refine h.meets ((hreplayable.currentPool_provides hdiscerns).imp fun pool after hprovides ↦ ?_)
    exact records_nil hreplayable hprovides.pool_eq hprovides.registry_eq
  | add side entry => exact h.meets (addToPath_records hdiscerns hreplayable side entry)
  | extend entry => exact h.meets (addToSystem_records hdiscerns hreplayable entry)
  | renew preserve => exact h.meets (renew_records hreplayable preserve)
  | change change => exact h.meets (changePath_records hdiscerns hreplayable change)
  | edit id change => exact h.meets (edit_records hreplayable id change)
  | hold holds => exact ⟨h.world, ⟨hreplayable.distinct, hreplayable.kept⟩, h.recorded⟩
  | drift world hworld => exact ⟨hworld, hreplayable, h.recorded⟩

theorem sound_of_reachable (h : history.Reachable access worlds system) :
    history.Sound alike worlds := by
  obtain ⟨world, hworld, hsteps⟩ := h
  induction hsteps with
  | refl =>
    have horder : (ofSystem system).InOrder alike := inOrder_ofSystem system
    exact ⟨hworld, horder.replayable, fun side ↦ by cases side <;> rfl⟩
  | tail _ hstep ih => exact ih.step hdiscerns hstays hstep

end Sound

/-! ### Requests in the course of time -/

/-- The entry that an event added on a side. -/
def newcomer? (side : Side) : Event Loader → Option (Entry Loader)
  | .added own entry true => if own = side then some entry else none
  | _ => none

theorem register_eq {side : Side} {event : Event Loader} (h : event ≠ .renewed false)
    (entries : List (Entry Loader)) :
    event.register side entries = entries ++ (newcomer? side event).toList := by
  match event, h with
  | .added own entry true, _ =>
    by_cases hside : own = side
    · rw [Event.register, newcomer?, if_pos hside, if_pos hside]
      rfl
    · rw [Event.register, newcomer?, if_neg hside, if_neg hside]
      exact (List.append_nil _).symm
  | .added _ _ false, _ | .gave _, _ | .extended _ _, _ | .renewed true, _ =>
    exact (List.append_nil _).symm
  | .renewed false, h => exact absurd rfl h

/-- As long as the record is not emptied, entries only join it. -/
theorem registered_append {side : Side} {between earlier : List (Event Loader)}
    (h : .renewed false ∉ between) : registered side (between ++ earlier) =
      registered side earlier ++ between.reverse.filterMap (newcomer? side) := by
  induction between with
  | nil => exact (List.append_nil _).symm
  | cons event rest ih =>
    rw [List.mem_cons, not_or] at h
    have hlast : registered side (event :: rest ++ earlier) =
        event.register side (registered side (rest ++ earlier)) := rfl
    rw [hlast, register_eq fun hevent ↦ h.1 hevent.symm, ih h.2, List.append_assoc,
      List.reverse_cons, List.filterMap_append]
    cases hentry : newcomer? side event with
    | none => rw [List.filterMap_cons_none hentry]; rfl
    | some entry => rw [List.filterMap_cons_some hentry]; rfl

section Reachable

variable {history : History World Loader} {system : List (Entry Loader)}

/-- The search path of a workspace: that of its pool, which is built if there is none. -/
def pathIn (access : Access World Loader) (workspace : Workspace Loader) (world : World) :
    List (Entry Loader) :=
  (((searchPath access).run workspace).run world).1.1

theorem pathIn_eq
    (hpool : ((currentPool access).run workspace).run world = ((pool, built), opened)) :
    pathIn access workspace world = pool.path := by
  rw [pathIn, searchPath, StateT.run_bind, StateT.run_bind, hpool]
  rfl

/-- The request is a mere lookup, which leaves the search path alone and asks nothing behind the
entry that has the class, and nothing at all if the pool has it. -/
def Resolves (access : Access World Loader) (name : String) (workspace : Workspace Loader)
    (world : World) (outcome : Except Failure ClassId) (after : Workspace Loader) (later : World) :
    Prop :=
  ∃ id, outcome = .ok id ∧ Runs (getClass access name) workspace world (.ok id) after later ∧
    pathIn access after later = pathIn access workspace world ∧
    (workspace.Pools (ClassName.dotted name) id ∧ after = workspace ∧ later = world ∨
      ∃ front entry back opened middle bytes,
        pathIn access workspace world = front ++ entry :: back ∧
        (((currentPool access).run workspace).run world).2 = opened ∧
        Passes access (ClassName.dotted name) front opened middle ∧
        (entry.findClass access (ClassName.dotted name)).run middle = (.ok (some bytes), later))

/-- The class is not found, and the loader joins the end of the search path unless one like it is
among `registered`. The answer is that of another lookup, which leaves the path as it is then. -/
def Widens (access : Access World Loader) (alike : Entry Loader → Entry Loader → Bool)
    (registered : List (Entry Loader)) (loader : Loader) (name : String)
    (workspace : Workspace Loader) (world : World) (outcome : Except Failure ClassId)
    (after : Workspace Loader) (later : World) : Prop :=
  ∃ failure between middle new widened turned,
    Runs (getClass access name) workspace world (.error failure) between middle ∧
    ((addToPath access .back (.loader loader)).run between).run middle = ((new, widened), turned) ∧
    (new = true ↔ ¬Knows alike registered (.loader loader)) ∧
    pathIn access widened turned =
      pathIn access workspace world ++ (if new then [.loader loader] else []) ∧
    Runs (getClass access name) widened turned outcome after later ∧
    pathIn access after later = pathIn access widened turned

theorem pathIn_of_pool (hpool : workspace.pool = some pool) (world : World) :
    pathIn access workspace world = pool.path :=
  pathIn_eq (currentPool_run hpool world)

theorem Requests.resolves_or_widens {loader : Loader} {outcome : Except Failure ClassId}
    (h : Requests access alike loader (ClassName.dotted name) built pool opened outcome after later)
    (hpool : ((currentPool access).run workspace).run world = ((pool, built), opened))
    (hprovides : workspace.Provides pool built) :
    Resolves access name workspace world outcome after later ∨
      Widens access alike (workspace.registry.recorded .back) loader name workspace world outcome
        after later := by
  have hpath := pathIn_eq hpool
  have hbuilt := hprovides.pool_eq
  cases h with
  | found hfound =>
    obtain ⟨last, hlast, hsame, -⟩ := hfound.exists_pool hbuilt
    refine .inl ⟨_, rfl, hfound.runs hpool, ?_, ?_⟩
    · rw [pathIn_of_pool hlast, hsame, hpath]
    · rcases hfound.asked with ⟨hid, rfl, rfl⟩ | ⟨front, entry, back, middle, bytes, hasked⟩
      · obtain ⟨hown, rfl⟩ := hprovides.of_lookup hid
        obtain ⟨-, rfl⟩ := Prod.mk.inj ((currentPool_run hown world).symm.trans hpool)
        exact .inl ⟨⟨pool, hown, hid⟩, rfl, rfl⟩
      · refine .inr ⟨front, entry, back, opened, middle, bytes, ?_⟩
        rw [hpath, hpool]
        exact ⟨hasked.1, rfl, hasked.2⟩
  | joined hmissed hnew hadd hagain =>
    obtain ⟨last, hlast, hsame, -⟩ := hagain.exists_pool rfl
    have hwidened : (built.withEntry pool .back (.loader loader)).pool =
        some { pool with path := pool.path ++ [.loader loader] } := rfl
    refine .inr ⟨_, _, _, true, _, _, hmissed.runs hpool, hadd, ?_, ?_,
      hagain.runs (currentPool_run rfl _), ?_⟩
    · rw [← hprovides.registry_eq]
      exact iff_of_true rfl hnew
    · rw [hpath, pathIn_of_pool hwidened]
      rfl
    · rw [pathIn_of_pool hlast, hsame, pathIn_of_pool hwidened]
  | repeated hmissed hknown hadd hagain =>
    obtain ⟨last, hlast, hsame, -⟩ := hagain.exists_pool hbuilt
    refine .inr ⟨_, _, _, false, _, _, hmissed.runs hpool, hadd, ?_, ?_,
      hagain.runs (currentPool_run hbuilt _), ?_⟩
    · rw [← hprovides.registry_eq]
      exact iff_of_false Bool.false_ne_true (not_not.mpr hknown)
    · rw [hpath, pathIn_of_pool hbuilt]
      exact (List.append_nil _).symm
    · rw [pathIn_of_pool hlast, hsame, pathIn_of_pool hbuilt]

/-- Whatever was done before, a request through a loader either finds the class as it is, or widens
the search path by the loader unless that was done since the record was last emptied. Either way the
classes of the pool stay in it, and all classes stay what they are. And until the record is emptied,
entries only join it, none like one that is there. -/
theorem widened_of_reachable (hdiscerns : access.Discerns worlds alike)
    (hstays : access.StaysIn worlds) (h : history.Reachable access worlds system) (loader : Loader)
    (name : String) :
    (∃ (outcome : Except Failure ClassId) (after : Workspace Loader) (later : World),
      Runs (getClassFor access (some loader) name) history.workspace history.world outcome after
        later ∧
      (Resolves access name history.workspace history.world outcome after later ∨
        Widens access alike (registered .back history.events) loader name history.workspace
          history.world outcome after later) ∧
      (∀ other id, history.workspace.Pools other id → after.Pools other id) ∧
      ∀ (id : ClassId) (cls : EditableClass), history.workspace.classes[id]? = some cls →
        after.classes[id]? = some cls) ∧
    ∀ between earlier, history.events = between ++ earlier → .renewed false ∉ between →
      registered .back history.events =
          registered .back earlier ++ between.reverse.filterMap (newcomer? .back) ∧
        Apart alike (registered .back history.events) := by
  have hsound := sound_of_reachable hdiscerns hstays h
  have hreplayable := hsound.replayable
  refine ⟨?_, fun between earlier hevents hkept ↦ ⟨?_, ?_⟩⟩
  · obtain ⟨hopened, hprovides⟩ :=
      hreplayable.currentPool_provides hdiscerns history.world hsound.world
    rcases hpool : ((currentPool access).run history.workspace).run history.world with
      ⟨⟨pool, built⟩, opened⟩
    rw [hpool] at hopened hprovides
    obtain ⟨outcome, after, later, -, hrequests⟩ := exists_requests hdiscerns hstays
      (hprovides.replayable hreplayable) hprovides.pool_eq hopened loader (ClassName.dotted name)
    obtain ⟨last, hlast, hclasses⟩ := hrequests.exists_pool hprovides.pool_eq
    refine ⟨outcome, after, later, hrequests.runs hpool hprovides.pool_eq, ?_, ?_, ?_⟩
    · rw [← hsound.recorded .back]
      exact hrequests.resolves_or_widens hpool hprovides
    · rintro other id ⟨own, hown, hid⟩
      obtain ⟨rfl, -⟩ := hprovides.of_pool hown
      exact ⟨last, hlast, hclasses other id hid⟩
    · intro id cls hcls
      refine hrequests.classes ?_
      rwa [hprovides.classes_eq]
  · rw [hevents]
    exact registered_append hkept
  · rw [← hsound.recorded .back]
    exact hsound.replayable.distinct .back

/-- A class was asked for through a loader that does not have it, and the pool was dropped. -/
def askedBefore : History Unit Nat :=
  ((History.start [.loader 0] ()).does (getClassFor numberedLoaders (some 1) "A").run fun _ ↦
    additions numberedLoaders (some 1) "A" (.ofSystem [.loader 0]) ()).does
    (Workspace.renew true) fun _ ↦ [.renewed true]

theorem reachable_askedBefore :
    askedBefore.Reachable numberedLoaders (fun _ ↦ True) [.loader 0] :=
  ⟨(), trivial, .tail (.tail .refl (.request (some 1) "A")) (.renew true)⟩

/-- The pool that is built then has the loader at the end of its search path. -/
def rebuilt : Workspace Nat :=
  ⟨⟨[.loader 0], [], [.loader 1], true⟩, some ⟨1, [.loader 0, .loader 1], []⟩, 2, #[], .none⟩

theorem runs_askedBefore : Runs (getClassFor numberedLoaders (some 1) "A") askedBefore.workspace
    askedBefore.world (.error (.classNotFound (ClassName.dotted "A"))) rebuilt () := by
  have hpool : ((currentPool numberedLoaders).run askedBefore.workspace).run askedBefore.world =
      ((⟨1, [.loader 0, .loader 1], []⟩, rebuilt), ()) := rfl
  have hmissed : Looks numberedLoaders (ClassName.dotted "A") rebuilt
      ⟨1, [.loader 0, .loader 1], []⟩ () (.error (.classNotFound (ClassName.dotted "A"))) rebuilt
      () := .missing rfl (.missing (.cons rfl (.cons rfl (.nil ()))))
  have hknown : Knows alikeByNumber (rebuilt.registry.recorded .back) (.loader 1) := by decide
  have hrequests : Requests numberedLoaders alikeByNumber 1 (ClassName.dotted "A") rebuilt
      ⟨1, [.loader 0, .loader 1], []⟩ () (.error (.classNotFound (ClassName.dotted "A"))) rebuilt
      () := .repeated hmissed hknown rfl hmissed
  exact hrequests.runs hpool rfl

/-- The loader is asked in its place again, and does not join the search path again. -/
theorem widened_of_reachable_askedBefore :
    registered .back askedBefore.events = [.loader 1] ∧
    ∃ after later,
      Runs (getClassFor numberedLoaders (some 1) "A") askedBefore.workspace askedBefore.world
        (.error (.classNotFound (ClassName.dotted "A"))) after later ∧
      Widens numberedLoaders alikeByNumber [.loader 1] 1 "A" askedBefore.workspace
        askedBefore.world (.error (.classNotFound (ClassName.dotted "A"))) after later ∧
      pathIn numberedLoaders after later = [.loader 0, .loader 1] := by
  have hregistered : registered .back askedBefore.events = [.loader 1] := rfl
  obtain ⟨⟨outcome, after, later, hrun, hcases, -, -⟩, -⟩ := widened_of_reachable
    discerns_numberedLoaders numberedLoaders.staysIn_all reachable_askedBefore 1 "A"
  obtain ⟨hboth, rfl⟩ := Prod.mk.inj (hrun.symm.trans runs_askedBefore)
  obtain ⟨rfl, rfl⟩ := Prod.mk.inj hboth
  rw [hregistered] at hcases
  rcases hcases with ⟨id, hid, -⟩ | hwidens
  · cases hid
  · exact ⟨hregistered, _, _, hrun, hwidens, rfl⟩

end Reachable

end ClassWeaver.Widening
