import ClassWeaver.Proofs.Workspace.SearchPath
import Mathlib.Logic.Function.Basic
import Mathlib.Logic.Relation

/-!
Threads that change the search path of one workspace.

Whatever changes the record happens under the lock of the record and is one step here. Asking for
the pool first looks whether there is one, without that lock; a thread that finds none takes the
lock and looks again, which is a step of its own, since others may have built the pool by then. A
scene keeps all answers, and what should be recorded is what the answers say (`registered`).
-/

set_option autoImplicit false
set_option relaxedAutoImplicit false

namespace ClassWeaver.SearchPath

open Search Workspace

variable {Thread World Loader α : Type}

/-! ### What happened to a search path -/

/-- Something that was done to the search path, with its answer. -/
inductive Event (Loader : Type) where
  | gave (pool : ClassPool Loader)
  | added (side : Side) (entry : Entry Loader) (new : Bool)
  | extended (entry : Entry Loader) (new : Bool)
  | renewed (preserve : Bool)

/-- What an event makes of the entries that are registered on a side. -/
def Event.register (side : Side) : Event Loader → List (Entry Loader) → List (Entry Loader)
  | added own entry true, entries => if own = side then entries ++ [entry] else entries
  | renewed false, _ => []
  | _, entries => entries

/-- What an event makes of the entries that were asked to be added on a side. -/
def Event.request (side : Side) : Event Loader → List (Entry Loader) → List (Entry Loader)
  | added own entry _, entries => if own = side then entries ++ [entry] else entries
  | renewed false, _ => []
  | _, entries => entries

/-- What an event makes of the system path. -/
def Event.extend : Event Loader → List (Entry Loader) → List (Entry Loader)
  | extended entry true, entries => entries ++ [entry]
  | _, entries => entries

/-- The entries that were added on a side since the record was last emptied. The latest event
comes first. -/
def registered (side : Side) (events : List (Event Loader)) : List (Entry Loader) :=
  events.foldr (Event.register side) []

/-- The entries that were asked to be added on a side since the record was last emptied, whether
they were or not. -/
def requested (side : Side) (events : List (Event Loader)) : List (Entry Loader) :=
  events.foldr (Event.request side) []

def systemPath (system : List (Entry Loader)) (events : List (Event Loader)) :
    List (Entry Loader) :=
  events.foldr Event.extend system

/-- Whether the pool was dropped. -/
def Renewed (events : List (Event Loader)) : Prop :=
  ∃ preserve, .renewed preserve ∈ events

/-- What the answer of an event has to be after what happened earlier. -/
def Event.Right (alike : Entry Loader → Entry Loader → Bool) (system : List (Entry Loader))
    (earlier : List (Event Loader)) : Event Loader → Prop
  | gave pool =>
    pool.path = (registered .front earlier).reverse ++ systemPath system earlier ++
      registered .back earlier ∧
    ∀ between older before, earlier = between ++ .gave older :: before →
      (pool.number = older.number ↔ ¬Renewed between)
  | added side entry new =>
    (new = true ↔ ¬Knows alike (registered side earlier) entry) ∧
      (new = true ↔ ¬Knows alike (requested side earlier) entry)
  | extended entry new => new = true ↔ ¬Knows alike (systemPath system earlier) entry
  | renewed _ => True

/-! ### Scenes -/

structure Scene (Thread World Loader : Type) where
  workspace : Workspace Loader
  world : World
  /-- The threads that asked for the pool and saw none. -/
  missed : Thread → Bool
  /-- The latest event comes first. -/
  events : List (Event Loader)

namespace Scene

/-- Nothing has been done to the search path. -/
def start (system : List (Entry Loader)) (world : World) : Scene Thread World Loader where
  workspace := .ofSystem system
  world
  missed _ := false
  events := []

/-- Does `work` and keeps the answer. -/
def does (scene : Scene Thread World Loader) (work : Work World Loader α)
    (event : α → Event Loader) : Scene Thread World Loader :=
  let ended := (work.run scene.workspace).run scene.world
  { scene with
    workspace := ended.1.2
    world := ended.2
    events := event ended.1.1 :: scene.events }

variable [DecidableEq Thread] (access : Access World Loader) (worlds : World → Prop)

/-- What may happen next. -/
inductive Step : Scene Thread World Loader → Scene Thread World Loader → Prop
  /-- A thread that asks for the pool gets the one that there is. -/
  | hit {scene} (thread : Thread) {pool : ClassPool Loader}
      (hfree : scene.missed thread = false) (hpool : scene.workspace.pool = some pool) :
    Step scene { scene with events := .gave pool :: scene.events }
  | miss {scene} (thread : Thread) (hfree : scene.missed thread = false)
      (hpool : scene.workspace.pool = none) :
    Step scene { scene with missed := Function.update scene.missed thread true }
  | build {scene} (thread : Thread) (hmissed : scene.missed thread = true) :
    Step scene ({ scene with missed := Function.update scene.missed thread false }.does
      (currentPool access) .gave)
  | add {scene} (thread : Thread) (side : Side) (entry : Entry Loader)
      (hfree : scene.missed thread = false) :
    Step scene (scene.does (addToPath access side entry) (.added side entry))
  | extend {scene} (thread : Thread) (entry : Entry Loader)
      (hfree : scene.missed thread = false) :
    Step scene (scene.does (addToSystem access entry) (.extended entry))
  | renew {scene} (thread : Thread) (preserve : Bool) (hfree : scene.missed thread = false) :
    Step scene (scene.does (Workspace.renew preserve) fun _ ↦ .renewed preserve)
  /-- The world goes on by itself. -/
  | drift {scene} (world : World) (hworld : worlds world) : Step scene { scene with world }

/-- What may come about in the course of time. -/
def Reachable (system : List (Entry Loader)) (scene : Scene Thread World Loader) : Prop :=
  ∃ world, worlds world ∧ Relation.ReflTransGen (Step access worlds) (start system world) scene

end Scene

/-! ### What one event does -/

variable {alike : Entry Loader → Entry Loader → Bool} {access : Access World Loader}
  {worlds : World → Prop} {system : List (Entry Loader)} {workspace after : Workspace Loader}
  {event : Event Loader} {events : List (Event Loader)} {pool : ClassPool Loader}

/-- Whether the answer of an event fits the workspace that it was given in. -/
def Event.Answers (alike : Entry Loader → Entry Loader → Bool) (workspace : Workspace Loader) :
    Event Loader → Prop
  | gave pool => pool.path = workspace.registry.wholePath
  | added side entry new => new = true ↔ ¬Knows alike (workspace.registry.recorded side) entry
  | extended entry new => new = true ↔ ¬Knows alike workspace.registry.system entry
  | renewed _ => True

/-- What an event makes of the pool. -/
structure Event.Moves (event : Event Loader) (before after : Workspace Loader) : Prop where
  counted : before.poolCount ≤ after.poolCount
  gave : ∀ pool, event = .gave pool → after.pool = some pool
  dropped : ∀ preserve, event = .renewed preserve → after.pool = none
  kept : (∀ preserve, event ≠ .renewed preserve) → ∀ pool, before.pool = some pool →
    ∃ later, after.pool = some later ∧ later.number = pool.number
  built : before.pool = none → ∀ later, after.pool = some later →
    later.number = before.poolCount

/-- From one workspace to another, an event happened. -/
structure Event.Follows (alike : Entry Loader → Entry Loader → Bool) (event : Event Loader)
    (before after : Workspace Loader) : Prop where
  answers : event.Answers alike before
  inOrder : after.InOrder alike
  recorded : ∀ side,
    after.registry.recorded side = event.register side (before.registry.recorded side)
  system : after.registry.system = event.extend before.registry.system
  moves : event.Moves before after

/-- The pool that is asked for stays the one in use. -/
theorem moves_of_provides {built : Workspace Loader} {later : ClassPool Loader}
    (h : workspace.Provides pool built) (hlater : after.pool = some later)
    (hnumber : later.number = pool.number) (hcount : after.poolCount = built.poolCount)
    (hevent : ∀ preserve, event ≠ .renewed preserve)
    (hgave : ∀ given, event = .gave given → later = given) : event.Moves workspace after where
  counted := by
    rw [hcount]
    cases h with
    | old hpool => exact Nat.le_refl _
    | new hpool => exact Nat.le_succ _
  gave given hgiven := hgave given hgiven ▸ hlater
  dropped preserve hrenewed := absurd hrenewed (hevent preserve)
  kept _ first hfirst := by
    refine ⟨later, hlater, hnumber.trans ?_⟩
    cases h with
    | old hpool => rw [Option.some.inj (hpool.symm.trans hfirst)]
    | new hpool => cases hpool.symm.trans hfirst
  built hnone given hgiven := by
    rw [← Option.some.inj (hlater.symm.trans hgiven), hnumber]
    cases h with
    | old hpool => cases hpool.symm.trans hnone
    | new hpool => rfl

theorem follows_gave (h : workspace.InOrder alike) (hpool : workspace.Provides pool after) :
    (Event.gave pool).Follows alike workspace after where
  answers := hpool.path_eq h
  inOrder := hpool.inOrder h
  recorded _ := congrArg (Registry.recorded · _) hpool.registry_eq
  system := congrArg Registry.system hpool.registry_eq
  moves := moves_of_provides hpool hpool.pool_eq rfl rfl nofun (by rintro _ ⟨⟩; rfl)

theorem follows_added (h : workspace.InOrder alike) {built : Workspace Loader}
    (hpool : workspace.Provides pool built) {side : Side} {entry : Entry Loader} {new : Bool}
    (hnew : new = true ↔ ¬Knows alike (workspace.registry.recorded side) entry)
    (hafter : after = if new then built.withEntry pool side entry else built) :
    (Event.added side entry new).Follows alike workspace after := by
  have hregistry := hpool.registry_eq
  cases new with
  | true =>
    obtain rfl : after = built.withEntry pool side entry := hafter
    rw [iff_true_left rfl, ← hregistry] at hnew
    refine ⟨?_, (hpool.inOrder h).withEntry hpool.pool_eq hnew, fun other ↦ ?_, ?_, ?_⟩
    · rwa [Event.Answers, iff_true_left rfl, ← hregistry]
    · rw [← hregistry]
      exact Registry.recorded_add _ side other entry
    · rw [← hregistry]
      exact Registry.system_add _ side entry
    · exact moves_of_provides hpool rfl rfl rfl nofun nofun
  | false =>
    obtain rfl : after = built := hafter
    refine ⟨hnew, hpool.inOrder h, fun other ↦ ?_, ?_, ?_⟩
    · rw [hregistry]
      rfl
    · rw [hregistry]
      rfl
    · exact moves_of_provides hpool hpool.pool_eq rfl rfl nofun nofun

theorem follows_extended (h : workspace.InOrder alike) {entry : Entry Loader} {new : Bool}
    (hnew : new = true ↔ ¬Knows alike workspace.registry.system entry)
    (hafter : after = if new then workspace.withSystemEntry entry else workspace) :
    (Event.extended entry new).Follows alike workspace after := by
  cases new with
  | true =>
    obtain rfl : after = workspace.withSystemEntry entry := hafter
    refine ⟨hnew, h.withSystemEntry entry, recorded_withSystemEntry workspace entry, rfl,
      Nat.le_refl _, nofun, nofun, fun _ pool hpool ↦ ?_, fun hnone later hlater ↦ ?_⟩
    · exact ⟨_, Option.map_eq_some_iff.mpr ⟨pool, hpool, rfl⟩, rfl⟩
    · obtain ⟨pool, hpool, -⟩ := Option.map_eq_some_iff.mp hlater
      cases hpool.symm.trans hnone
  | false =>
    obtain rfl : after = workspace := hafter
    refine ⟨hnew, h, fun _ ↦ rfl, rfl, Nat.le_refl _, nofun, nofun, fun _ pool hpool ↦ ?_,
      fun hnone later hlater ↦ ?_⟩
    · exact ⟨pool, hpool, rfl⟩
    · cases hlater.symm.trans hnone

theorem follows_renewed (h : workspace.InOrder alike) (preserve : Bool) :
    (Event.renewed preserve).Follows alike workspace (workspace.renewed preserve) where
  answers := trivial
  inOrder := h.renewed preserve
  recorded side := by
    refine (Registry.recorded_renew _ preserve side).trans ?_
    cases preserve with
    | true => rfl
    | false => rfl
  system := Registry.system_renew _ preserve
  moves := ⟨Nat.le_refl _, nofun, fun _ _ ↦ rfl, fun h ↦ absurd rfl (h preserve), nofun⟩

/-! ### Scenes in order -/

/-- A scene whose answers were right and whose record is what they say. -/
structure Scene.Sound (alike : Entry Loader → Entry Loader → Bool) (worlds : World → Prop)
    (system : List (Entry Loader)) (scene : Scene Thread World Loader) : Prop where
  world : worlds scene.world
  inOrder : scene.workspace.InOrder alike
  recorded : ∀ side, scene.workspace.registry.recorded side = registered side scene.events
  extended : scene.workspace.registry.system = systemPath system scene.events
  /-- The pool that was given to somebody is in use until it is dropped, and never again. -/
  current : ∀ between older before, scene.events = between ++ .gave older :: before →
    older.number < scene.workspace.poolCount ∧
    (scene.workspace.pool = none → Renewed between) ∧
    ∀ pool, scene.workspace.pool = some pool →
      (pool.number = older.number ↔ ¬Renewed between)
  knows : ∀ side entry, Knows alike (requested side scene.events) entry ↔
    Knows alike (registered side scene.events) entry
  right : ∀ later event earlier, scene.events = later ++ event :: earlier →
    event.Right alike system earlier

theorem renewed_cons_iff (hevent : ∀ preserve, event ≠ .renewed preserve) :
    Renewed (event :: events) ↔ Renewed events := by
  constructor
  · rintro ⟨preserve, hmem⟩
    exact ⟨preserve, (List.mem_cons.mp hmem).resolve_left fun h ↦ hevent preserve h.symm⟩
  · rintro ⟨preserve, hmem⟩
    exact ⟨preserve, List.mem_cons_of_mem _ hmem⟩

theorem knows_append_singleton_iff {entries : List (Entry Loader)} {known entry : Entry Loader} :
    Knows alike (entries ++ [known]) entry ↔
      Knows alike entries entry ∨ alike known entry = true := by
  simp only [Knows, List.mem_append, List.mem_singleton, or_and_right, exists_or, exists_eq_left]

namespace Scene.Sound

variable {scene : Scene Thread World Loader} {world : World}

theorem start (hworld : worlds world) :
    (Scene.start system world : Scene Thread World Loader).Sound alike worlds system where
  world := hworld
  inOrder := inOrder_ofSystem system
  recorded side := by cases side <;> rfl
  extended := rfl
  current := by simp [Scene.start]
  knows _ _ := Iff.rfl
  right := by simp [Scene.start]

/-- Which thread saw no pool, and how the world goes on, does not matter. -/
theorem congr (h : scene.Sound alike worlds system) (hworld : worlds world)
    (missed : Thread → Bool) : { scene with world, missed }.Sound alike worlds system :=
  ⟨hworld, h.inOrder, h.recorded, h.extended, h.current, h.knows, h.right⟩

/-- A new event leaves the pool in use or drops it, and a pool that is built has a new number. -/
theorem current_cons (h : scene.Sound alike worlds system)
    (hmoves : event.Moves scene.workspace after) (between : List (Event Loader))
    (older : ClassPool Loader) (before : List (Event Loader))
    (hevents : event :: scene.events = between ++ .gave older :: before)
    (hnumber : ∀ pool, after.pool = some pool → pool.number < after.poolCount) :
    older.number < after.poolCount ∧ (after.pool = none → Renewed between) ∧
      ∀ pool, after.pool = some pool → (pool.number = older.number ↔ ¬Renewed between) := by
  cases between with
  | nil =>
    obtain ⟨rfl, -⟩ := List.cons.inj hevents
    have hpool := hmoves.gave older rfl
    refine ⟨hnumber older hpool, fun hnone ↦ ?_, fun pool hsome ↦ ?_⟩
    · cases hpool.symm.trans hnone
    · rw [Option.some.inj (hsome.symm.trans hpool)]
      exact iff_of_true rfl fun ⟨_, hmem⟩ ↦ List.not_mem_nil hmem
  | cons first between =>
    obtain ⟨rfl, hearlier⟩ := List.cons.inj hevents
    obtain ⟨hcount, hnone, hsome⟩ := h.current between older before hearlier
    refine ⟨Nat.lt_of_lt_of_le hcount hmoves.counted, ?_⟩
    by_cases hevent : ∀ preserve, event ≠ .renewed preserve
    · rw [renewed_cons_iff hevent]
      cases hpool : scene.workspace.pool with
      | none =>
        refine ⟨fun _ ↦ hnone hpool, fun pool hlater ↦ ?_⟩
        rw [hmoves.built hpool pool hlater]
        exact iff_of_false (Nat.ne_of_gt hcount) (not_not_intro (hnone hpool))
      | some pool =>
        obtain ⟨later, hlater, hnumber⟩ := hmoves.kept hevent pool hpool
        refine ⟨fun hgone ↦ (by cases hlater.symm.trans hgone), fun other hother ↦ ?_⟩
        rw [← Option.some.inj (hlater.symm.trans hother), hnumber]
        exact hsome pool hpool
    · obtain ⟨preserve, hrenewed⟩ := not_forall_not.mp hevent
      have hdropped := hmoves.dropped preserve hrenewed
      refine ⟨fun _ ↦ ⟨preserve, hrenewed ▸ List.mem_cons_self⟩, fun pool hpool ↦ ?_⟩
      cases hdropped.symm.trans hpool

/-- An entry like one that was refused is like the one that it was refused for. -/
theorem knows_cons (h : scene.Sound alike worlds system)
    (hequivalence : Equivalence fun entry other ↦ alike entry other = true)
    (hanswers : event.Answers alike scene.workspace) (side : Side) (entry : Entry Loader) :
    Knows alike (requested side (event :: scene.events)) entry ↔
      Knows alike (registered side (event :: scene.events)) entry := by
  have hknows := h.knows side entry
  simp only [requested, registered, List.foldr_cons] at hknows ⊢
  cases event with
  | gave pool => exact hknows
  | extended other new => exact hknows
  | renewed preserve =>
    cases preserve with
    | true => exact hknows
    | false => exact Iff.rfl
  | added own other new =>
    cases new with
    | true =>
      rw [Event.request, Event.register]
      by_cases hside : own = side
      · rw [if_pos hside, if_pos hside, knows_append_singleton_iff, knows_append_singleton_iff,
          hknows]
      · rw [if_neg hside, if_neg hside, hknows]
    | false =>
      have hrefused (entries : List (Entry Loader)) :
          (Event.added own other false).register side entries = entries := rfl
      rw [Event.request, hrefused]
      by_cases hside : own = side
      · rw [if_pos hside, knows_append_singleton_iff, hknows, or_iff_left_iff_imp]
        intro halike
        obtain ⟨known, hmem, hknown⟩ : Knows alike (scene.workspace.registry.recorded own) other :=
          not_not.mp fun hunknown ↦ Bool.false_ne_true (hanswers.mpr hunknown)
        rw [h.recorded, hside] at hmem
        exact ⟨known, hmem, hequivalence.trans hknown halike⟩
      · rw [if_neg hside]
        exact hknows

theorem follow (h : scene.Sound alike worlds system)
    (hequivalence : Equivalence fun entry other ↦ alike entry other = true)
    (hfollows : event.Follows alike scene.workspace after) (hworld : worlds world) :
    { scene with workspace := after, world, events := event :: scene.events }.Sound alike worlds
      system := by
  have hcurrent := fun between older before hevents ↦
    h.current_cons hfollows.moves between older before hevents hfollows.inOrder.numbered
  refine ⟨hworld, hfollows.inOrder, fun side ↦ ?_, ?_, hcurrent,
    h.knows_cons hequivalence hfollows.answers, fun later last earlier hevents ↦ ?_⟩
  · rw [hfollows.recorded, h.recorded]
    rfl
  · rw [hfollows.system, h.extended]
    rfl
  · cases later with
    | cons first later => exact h.right later last earlier (List.cons.inj hevents).2
    | nil =>
      obtain ⟨rfl, rfl⟩ := List.cons.inj hevents
      have hanswers := hfollows.answers
      cases event with
      | gave pool =>
        refine ⟨?_, fun between older before hbetween ↦ ?_⟩
        · rw [← h.extended, ← h.recorded, ← h.recorded]
          exact hanswers
        · have hpool := hfollows.moves.gave pool rfl
          have hgave : ∀ preserve, Event.gave pool ≠ .renewed preserve := nofun
          have hlast := hcurrent (_ :: between) older before (congrArg _ hbetween)
          refine (hlast.2.2 pool hpool).trans ?_
          exact (renewed_cons_iff hgave).not
      | added side entry new =>
        rw [Event.Right, h.knows, ← h.recorded]
        exact ⟨hanswers, hanswers⟩
      | extended entry new =>
        rw [Event.Right, ← h.extended]
        exact hanswers
      | renewed preserve => exact trivial

theorem does (h : scene.Sound alike worlds system)
    (hequivalence : Equivalence fun entry other ↦ alike entry other = true)
    {work : Work World Loader α} {event : α → Event Loader}
    (hwork : Meets worlds work scene.workspace fun answer after ↦
      (event answer).Follows alike scene.workspace after) :
    (scene.does work event).Sound alike worlds system := by
  obtain ⟨hworld, hfollows⟩ := hwork scene.world h.world
  exact h.follow hequivalence hfollows hworld

variable [DecidableEq Thread]

theorem step {later : Scene Thread World Loader} (h : scene.Sound alike worlds system)
    (hdiscerns : access.Discerns worlds alike) (hstep : Step access worlds scene later) :
    later.Sound alike worlds system := by
  cases hstep with
  | hit thread hfree hpool =>
    exact h.follow hdiscerns.equivalence (follows_gave h.inOrder (.old hpool)) h.world
  | miss thread hfree hpool => exact h.congr h.world _
  | build thread hmissed =>
    refine (h.congr h.world _).does hdiscerns.equivalence ?_
    exact (currentPool_provides hdiscerns h.inOrder).imp fun _ _ ↦ follows_gave h.inOrder
  | add thread side entry hfree =>
    refine h.does hdiscerns.equivalence ((addToPath_adds hdiscerns h.inOrder side entry).imp ?_)
    rintro new after ⟨pool, built, hpool, hnew, hafter⟩
    exact follows_added h.inOrder hpool hnew hafter
  | extend thread entry hfree =>
    refine h.does hdiscerns.equivalence ((addToSystem_adds hdiscerns entry).imp ?_)
    rintro new after ⟨hnew, hafter⟩
    exact follows_extended h.inOrder hnew hafter
  | renew thread preserve hfree =>
    refine h.does hdiscerns.equivalence ((renew_renews preserve).imp ?_)
    rintro _ after rfl
    exact follows_renewed h.inOrder preserve
  | drift world hworld => exact h.congr hworld _

end Scene.Sound

theorem sound_of_reachable [DecidableEq Thread] {scene : Scene Thread World Loader}
    (hdiscerns : access.Discerns worlds alike) (h : scene.Reachable access worlds system) :
    scene.Sound alike worlds system := by
  obtain ⟨world, hworld, hsteps⟩ := h
  induction hsteps with
  | refl => exact .start hworld
  | tail _ hstep ih => exact ih.step hdiscerns hstep

/-- However threads change the search path and ask for the pool, the pool has the prepended
entries, the latest one first, the system path and the appended entries, and so has a pool that is
built next. What is recorded is what was added since the record was last emptied, without
repetitions; the system path only grows; and all answers were right. -/
theorem searchPath_of_reachable [DecidableEq Thread] {scene : Scene Thread World Loader}
    (hdiscerns : access.Discerns worlds alike) (h : scene.Reachable access worlds system) :
    (∀ pool, scene.workspace.pool = some pool →
      pool.path = scene.workspace.registry.prepended.reverse ++
        scene.workspace.registry.system ++ scene.workspace.registry.appended) ∧
    Meets worlds (currentPool access) scene.workspace (fun pool after ↦
      pool.path = scene.workspace.registry.prepended.reverse ++
        scene.workspace.registry.system ++ scene.workspace.registry.appended ∧
      after.pool = some pool ∧ after.registry = scene.workspace.registry) ∧
    scene.workspace.registry.prepended = registered .front scene.events ∧
    scene.workspace.registry.appended = registered .back scene.events ∧
    scene.workspace.registry.system = systemPath system scene.events ∧
    Apart alike scene.workspace.registry.prepended ∧
    Apart alike scene.workspace.registry.appended ∧
    ∀ later event earlier, scene.events = later ++ event :: earlier →
      event.Right alike system earlier := by
  have hsound := sound_of_reachable hdiscerns h
  have horder := hsound.inOrder
  refine ⟨horder.path, (currentPool_provides hdiscerns horder).imp fun pool after hpool ↦ ?_,
    hsound.recorded .front, hsound.recorded .back, hsound.extended, horder.distinct .front,
    horder.distinct .back, hsound.right⟩
  exact ⟨hpool.path_eq horder, hpool.pool_eq, hpool.registry_eq⟩

/-- Loaders that are told apart by their numbers, and have nothing. -/
def numberedLoaders : Access Unit Nat where
  toFiles := .none
  findResource _ _ := return .ok none
  sameLoader loader other := return loader == other

def alikeByNumber : Entry Nat → Entry Nat → Bool
  | .loader number, .loader other => number == other
  | entry, other => entry.sameFile other

theorem discerns_numberedLoaders : numberedLoaders.Discerns (fun _ ↦ True) alikeByNumber where
  equivalence := by
    refine ⟨fun entry ↦ ?_, fun {entry other} h ↦ ?_, fun {entry other last} h hlast ↦ ?_⟩
    · cases entry <;> simp [alikeByNumber, Entry.sameFile]
    · cases entry <;> cases other <;> simp_all [alikeByNumber, Entry.sameFile]
    · cases entry <;> cases other <;> cases last <;> simp_all [alikeByNumber, Entry.sameFile]
  same entry other _ _ := by
    cases entry <;> cases other <;> exact ⟨trivial, rfl⟩

/-- Entries were added on both sides and to the system path, one of them twice, and the pool was
dropped. -/
def dropped : Scene Bool Unit Nat :=
  ((((((Scene.start [.loader 0] ()).does
    (addToPath numberedLoaders .back (.loader 1)) (.added .back (.loader 1))).does
    (addToPath numberedLoaders .front (.loader 2)) (.added .front (.loader 2))).does
    (addToPath numberedLoaders .back (.loader 1)) (.added .back (.loader 1))).does
    (addToSystem numberedLoaders (.loader 3)) (.extended (.loader 3))).does
    (Workspace.renew true) fun _ ↦ .renewed true)

theorem reachable_dropped : dropped.Reachable numberedLoaders (fun _ ↦ True) [.loader 0] :=
  ⟨(), trivial, .tail (.tail (.tail (.tail (.tail .refl (.add true .back (.loader 1) rfl))
    (.add false .front (.loader 2) rfl)) (.add false .back (.loader 1) rfl))
    (.extend true (.loader 3) rfl)) (.renew true true rfl)⟩

/-- A thread asked for the pool then, and built it. -/
def replayed : Scene Bool Unit Nat :=
  { dropped with missed := Function.update (Function.update dropped.missed true true) true false
      }.does (currentPool numberedLoaders) .gave

theorem reachable_replayed : replayed.Reachable numberedLoaders (fun _ ↦ True) [.loader 0] := by
  obtain ⟨world, hworld, hsteps⟩ := reachable_dropped
  exact ⟨world, hworld, (hsteps.tail (.miss true rfl rfl)).tail (.build true rfl)⟩

theorem searchPath_of_reachable_replayed :
    numberedLoaders.Discerns (fun _ ↦ True) alikeByNumber ∧
      replayed.Reachable numberedLoaders (fun _ ↦ True) [.loader 0] ∧
      replayed.workspace.pool = some ⟨1, [.loader 2, .loader 0, .loader 3, .loader 1], []⟩ ∧
      (∀ pool, replayed.workspace.pool = some pool →
        pool.path = replayed.workspace.registry.prepended.reverse ++
          replayed.workspace.registry.system ++ replayed.workspace.registry.appended) ∧
      registered .back replayed.events = [.loader 1] ∧
      replayed.workspace.registry.appended = registered .back replayed.events ∧
      ∀ later event earlier, replayed.events = later ++ event :: earlier →
        event.Right alikeByNumber [.loader 0] earlier := by
  obtain ⟨hpath, -, -, hback, -, -, -, hright⟩ :=
    searchPath_of_reachable discerns_numberedLoaders reachable_replayed
  exact ⟨discerns_numberedLoaders, reachable_replayed, rfl, hpath, rfl, hback, hright⟩

end ClassWeaver.SearchPath
