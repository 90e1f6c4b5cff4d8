import ClassWeaver.Workspace

/-!
What work in a workspace leads to, in all worlds of a kind.

`Meets` says of work that starts in a given workspace that it does not leave the worlds of that
kind, and what its answer and the workspace look like afterwards. `Ends` says it of work that may
fail, for either end. Both follow the ways in which work is put together, so that the proof of a
fact about a procedure has the shape of the procedure.
-/

set_option autoImplicit false
set_option relaxedAutoImplicit false

namespace ClassWeaver.Workspace

variable {World Loader α β : Type} {worlds : World → Prop} {workspace after : Workspace Loader}

/-! ### Work that cannot fail -/

/-- Wherever the work is done, the world stays among `worlds` and the end is as `post` says. -/
def Meets (worlds : World → Prop) (work : Work World Loader α) (workspace : Workspace Loader)
    (post : α → Workspace Loader → Prop) : Prop :=
  ∀ world, worlds world →
    worlds ((work.run workspace).run world).2 ∧
      post ((work.run workspace).run world).1.1 ((work.run workspace).run world).1.2

theorem Meets.imp {work : Work World Loader α} {post weaker : α → Workspace Loader → Prop}
    (h : Meets worlds work workspace post)
    (himp : ∀ answer after, post answer after → weaker answer after) :
    Meets worlds work workspace weaker := by
  intro world hworld
  obtain ⟨hafter, hpost⟩ := h world hworld
  exact ⟨hafter, himp _ _ hpost⟩

theorem meets_pure {answer : α} {post : α → Workspace Loader → Prop} (h : post answer workspace) :
    Meets worlds (pure answer) workspace post :=
  fun _ hworld ↦ ⟨hworld, h⟩

theorem meets_bind {work : Work World Loader α} {next : α → Work World Loader β}
    {post : β → Workspace Loader → Prop}
    (h : Meets worlds work workspace fun answer after ↦ Meets worlds (next answer) after post) :
    Meets worlds (work >>= next) workspace post := by
  intro world hworld
  obtain ⟨hafter, hnext⟩ := h world hworld
  exact hnext _ hafter

theorem meets_get {post : Workspace Loader → Workspace Loader → Prop}
    (h : post workspace workspace) :
    Meets worlds (get : Work World Loader (Workspace Loader)) workspace post :=
  fun _ hworld ↦ ⟨hworld, h⟩

theorem meets_set {post : PUnit → Workspace Loader → Prop} (h : post ⟨⟩ after) :
    Meets worlds (set after) workspace post :=
  fun _ hworld ↦ ⟨hworld, h⟩

theorem meets_modify {change : Workspace Loader → Workspace Loader}
    {post : PUnit → Workspace Loader → Prop} (h : post ⟨⟩ (change workspace)) :
    Meets worlds (modify change : Work World Loader PUnit) workspace post :=
  fun _ hworld ↦ ⟨hworld, h⟩

/-- A question to the world leaves the workspace alone. -/
theorem meets_ask {query : StateM World α} {post : α → Workspace Loader → Prop}
    (h : ∀ world, worlds world →
      worlds (query.run world).2 ∧ post (query.run world).1 workspace) :
    Meets worlds (liftM query : Work World Loader α) workspace post :=
  h

/-! ### Work that may fail -/

/-- The second part goes on from where the first one ended, unless that failed. -/
theorem failing_bind_run (first : FailingWork World Loader α)
    (next : α → FailingWork World Loader β) (workspace : Workspace Loader) (world : World) :
    ((first >>= next).run.run workspace).run world =
      match (first.run.run workspace).run world with
      | ((.ok answer, between), later) => ((next answer).run.run between).run later
      | ((.error failure, between), later) => ((.error failure, between), later) := by
  rw [ExceptT.run_bind, StateT.run_bind, StateT.run_bind]
  rcases (first.run.run workspace).run world with ⟨⟨outcome, between⟩, later⟩
  cases outcome with
  | ok answer => rfl
  | error failure => rfl

theorem failing_ask_run (query : StateM World α) (workspace : Workspace Loader) (world : World) :
    ((liftM query : FailingWork World Loader α).run.run workspace).run world =
      ((.ok (query.run world).1, workspace), (query.run world).2) :=
  rfl

/-- Done in one workspace and world, the work comes to `outcome` and leaves another of each. -/
def Runs (work : FailingWork World Loader α) (workspace : Workspace Loader) (world : World)
    (outcome : Except Failure α) (after : Workspace Loader) (later : World) : Prop :=
  (work.run.run workspace).run world = ((outcome, after), later)

theorem exists_runs (work : FailingWork World Loader α) (workspace : Workspace Loader)
    (world : World) : ∃ outcome after later, Runs work workspace world outcome after later :=
  ⟨_, _, _, rfl⟩

theorem Runs.bind {first : FailingWork World Loader α} {next : α → FailingWork World Loader β}
    {world middle later : World} {between : Workspace Loader} {answer : α}
    {outcome : Except Failure β} (h : Runs first workspace world (.ok answer) between middle)
    (hnext : Runs (next answer) between middle outcome after later) :
    Runs (first >>= next) workspace world outcome after later := by
  rw [Runs, failing_bind_run, h]
  exact hnext

theorem Runs.bind_of_error {first : FailingWork World Loader α}
    {next : α → FailingWork World Loader β} {world later : World} {failure : Failure}
    (h : Runs first workspace world (.error failure) after later) :
    Runs (first >>= next) workspace world (.error failure) after later := by
  rw [Runs, failing_bind_run, h]

/-- A question to the world, as a part of work that may fail. -/
theorem runs_query {query : StateM World α} {answer : α} {world later : World}
    (h : query.run world = (answer, later)) :
    Runs (liftM query) workspace world (.ok answer) workspace later := by
  rw [Runs, failing_ask_run, h]

theorem runs_lift {work : Work World Loader α} {answer : α} {world later : World}
    (h : (work.run workspace).run world = ((answer, after), later)) :
    Runs (liftM work) workspace world (.ok answer) after later := by
  have hrun : ((liftM work : FailingWork World Loader α).run.run workspace).run world =
      ((.ok ((work.run workspace).run world).1.1, ((work.run workspace).run world).1.2),
        ((work.run workspace).run world).2) := rfl
  rw [Runs, hrun, h]

/-- Like `Meets`, for work that ends as `post` says or fails and ends as `stop` says. -/
def Ends (worlds : World → Prop) (work : FailingWork World Loader α) (workspace : Workspace Loader)
    (post : α → Workspace Loader → Prop) (stop : Failure → Workspace Loader → Prop) : Prop :=
  Meets worlds work.run workspace fun outcome after ↦
    match outcome with
    | .ok answer => post answer after
    | .error failure => stop failure after

variable {post : α → Workspace Loader → Prop} {stop : Failure → Workspace Loader → Prop}

theorem Ends.imp {work : FailingWork World Loader α} {weaker : α → Workspace Loader → Prop}
    {weakerStop : Failure → Workspace Loader → Prop} (h : Ends worlds work workspace post stop)
    (himp : ∀ answer after, post answer after → weaker answer after)
    (hstop : ∀ failure after, stop failure after → weakerStop failure after) :
    Ends worlds work workspace weaker weakerStop := by
  refine Meets.imp h fun outcome after hend ↦ ?_
  cases outcome with
  | ok answer => exact himp answer after hend
  | error failure => exact hstop failure after hend

theorem ends_pure {answer : α} (h : post answer workspace) :
    Ends worlds (pure answer) workspace post stop :=
  meets_pure h

theorem ends_throw {failure : Failure} (h : stop failure workspace) :
    Ends worlds (throw failure) workspace post stop :=
  meets_pure h

theorem ends_bind {work : FailingWork World Loader α} {next : α → FailingWork World Loader β}
    {post : β → Workspace Loader → Prop}
    (h : Ends worlds work workspace (fun answer after ↦ Ends worlds (next answer) after post stop)
      stop) :
    Ends worlds (work >>= next) workspace post stop := by
  rw [Ends, ExceptT.run_bind]
  refine meets_bind (Meets.imp h fun outcome after hend ↦ ?_)
  cases outcome with
  | ok answer => exact hend
  | error failure => exact meets_pure hend

/-- Work that cannot fail, as a part of work that may. -/
theorem ends_lift {work : Work World Loader α} (h : Meets worlds work workspace post) :
    Ends worlds (liftM work : FailingWork World Loader α) workspace post stop :=
  meets_bind (h.imp fun _ _ hpost ↦ meets_pure hpost)

theorem ends_get {post : Workspace Loader → Workspace Loader → Prop}
    (h : post workspace workspace) :
    Ends worlds (get : FailingWork World Loader (Workspace Loader)) workspace post stop :=
  fun _ hworld ↦ ⟨hworld, h⟩

theorem ends_set {post : PUnit → Workspace Loader → Prop} (h : post ⟨⟩ after) :
    Ends worlds (set after : FailingWork World Loader PUnit) workspace post stop :=
  fun _ hworld ↦ ⟨hworld, h⟩

theorem ends_ask {query : StateM World α}
    (h : ∀ world, worlds world →
      worlds (query.run world).2 ∧ post (query.run world).1 workspace) :
    Ends worlds (liftM query : FailingWork World Loader α) workspace post stop :=
  h

theorem ends_tryCatch {work : FailingWork World Loader α}
    {handler : Failure → FailingWork World Loader α}
    (h : Ends worlds work workspace post fun failure after ↦
      Ends worlds (handler failure) after post stop) :
    Ends worlds (tryCatch work handler) workspace post stop := by
  rw [Ends, ExceptT.run_tryCatch]
  refine meets_bind (Meets.imp h fun outcome after hend ↦ ?_)
  cases outcome with
  | ok answer => exact meets_pure hend
  | error failure => exact hend

end ClassWeaver.Workspace
