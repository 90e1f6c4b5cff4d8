import ClassWeaver.Proofs.Transformer.Skipping
import ClassWeaver.Proofs.Workspace.Searching
import ClassWeaver.Proofs.Workspace.Weaving
import Mathlib.Logic.Relation

/-!
Rewrites of classes that were read.

The first rewrite that changes a class serializes and freezes it, and rewrites that skip frozen
classes leave it alone from then on. Rewrites of one class come one after the other, whoever asks
for them, so that a scene keeps them as a list of calls; whatever else is done in between defrosts
nothing. A call that has frozen a class has left it as all later calls find it
(`sound_of_reachable`), and a transformer that is asked about a class does nothing but such steps
(`exists_steps_transform`).
-/

set_option autoImplicit false
set_option relaxedAutoImplicit false

namespace ClassWeaver.Rewriting

open Search Workspace

variable {World Loader : Type}

/-! ### What a rewrite makes of a class -/

section Weave

variable {rewrite : Rewrite} {cls : EditableClass}

theorem weave_of_frozen (hskip : rewrite.policy = .skip) (h : cls.frozen = true) :
    (rewrite.transformer : Transformer Loader).weave.run.run cls = (.ok none, cls) := by
  rw [rewrite.weave_transformer, hskip]
  exact skip_run_of_frozen h

theorem weave_of_thawed (hskip : rewrite.policy = .skip) (h : cls.frozen = false) :
    (rewrite.transformer : Transformer Loader).weave.run.run cls =
      match rewrite.edit.run.run cls with
      | (.ok true, after) => (.ok (some after.bytes), { after with frozen := true })
      | (.ok false, after) => (.ok none, after)
      | (.error failure, _) => (.error failure, cls) := by
  rw [rewrite.weave_transformer, hskip]
  exact skip_run_of_thawed (rewrite.spares_edit cls) h

end Weave

/-! ### Calls on classes that were read -/

/-- A rewrite of a class, how it ended, and what the class was like before and after it. -/
structure Call where
  id : ClassId
  rewrite : Rewrite
  before : EditableClass
  outcome : Except Failure (Option Bytes)
  after : EditableClass

/-- The class is open to edits, and the edit of the rewrite reports a change. -/
def Call.Changes (call : Call) : Prop :=
  call.before.frozen = false ∧ (call.rewrite.edit.run.run call.before).1 = .ok true

/-- What was made of the class is what the rewrite makes of it, which skips frozen classes. -/
structure Call.Proper (call : Call) : Prop where
  skip : call.rewrite.policy = .skip
  run : (editUnlessFrozen .skip call.rewrite.edit).run.run call.before = (call.outcome, call.after)

namespace Call

variable {call : Call}

theorem Proper.of_frozen (h : call.Proper) (hfrozen : call.before.frozen = true) :
    call.outcome = .ok none ∧ call.after = call.before := by
  obtain ⟨houtcome, hafter⟩ := Prod.mk.inj (h.run.symm.trans (skip_run_of_frozen hfrozen))
  exact ⟨houtcome, hafter⟩

theorem Proper.of_changes (h : call.Proper) (hchanges : call.Changes) :
    call.outcome = .ok (some call.after.bytes) ∧ call.after.frozen = true := by
  obtain ⟨hthawed, hreports⟩ := hchanges
  have hrun := h.run.symm.trans (skip_run_of_thawed (call.rewrite.spares_edit _) hthawed)
  rcases hran : call.rewrite.edit.run.run call.before with ⟨outcome, edited⟩
  rw [hran] at hreports hrun
  obtain rfl : outcome = .ok true := hreports
  obtain ⟨houtcome, hafter⟩ := Prod.mk.inj hrun
  rw [houtcome, hafter]
  exact ⟨rfl, rfl⟩

/-- Bytes are handed out for changes only. -/
theorem Proper.changes_of_bytes (h : call.Proper) {bytes : Bytes}
    (hbytes : call.outcome = .ok (some bytes)) : call.Changes := by
  cases hfrozen : call.before.frozen with
  | true =>
    rw [(h.of_frozen hfrozen).1] at hbytes
    cases hbytes
  | false =>
    have hrun := h.run.symm.trans (skip_run_of_thawed (call.rewrite.spares_edit _) hfrozen)
    refine ⟨hfrozen, ?_⟩
    rcases hran : call.rewrite.edit.run.run call.before with ⟨outcome, edited⟩
    rw [hran, hbytes] at hrun
    cases outcome with
    | error failure => cases hrun
    | ok answer =>
      cases answer with
      | true => rfl
      | false => cases hrun

end Call

/-! ### Scenes -/

/-- Every class is still there, and is as it was. -/
def Retains (before after : Workspace Loader) : Prop :=
  ∀ (id : ClassId) (cls : EditableClass),
    before.classes[id]? = some cls → after.classes[id]? = some cls

structure Scene (World Loader : Type) where
  workspace : Workspace Loader
  world : World
  /-- All rewrites so far, the latest one last. -/
  calls : List Call

namespace Scene

variable {scene later : Scene World Loader} {id : ClassId} {cls : EditableClass}
  {rewrite : Rewrite}

def start (workspace : Workspace Loader) (world : World) : Scene World Loader :=
  ⟨workspace, world, []⟩

/-- Rewrites the class `cls`, which is the one with the number `id`. -/
def rewriting (scene : Scene World Loader) (rewrite : Rewrite) (id : ClassId)
    (cls : EditableClass) : Scene World Loader :=
  let ended := ((edit id (rewrite.transformer : Transformer Loader).weave).run.run
    scene.workspace).run scene.world
  { workspace := ended.1.2
    world := ended.2
    calls := scene.calls ++ [⟨id, rewrite, cls, ended.1.1, (ended.1.2.classes[id]?).getD cls⟩] }

/-- Edits a class in another way. -/
def editing {α : Type} (scene : Scene World Loader) (id : ClassId) (change : ClassEdit Id α) :
    Scene World Loader :=
  let ended := ((edit id change).run.run scene.workspace).run scene.world
  { scene with workspace := ended.1.2, world := ended.2 }

/-- What may happen next. -/
inductive Step : Scene World Loader → Scene World Loader → Prop
  | rewrite {scene : Scene World Loader} {id : ClassId} {cls : EditableClass}
      (rewrite : Rewrite) (hskip : rewrite.policy = .skip)
      (hclass : scene.workspace.classes[id]? = some cls) :
    Step scene (scene.rewriting rewrite id cls)
  /-- A class is edited in whatever way that defrosts nothing. -/
  | edit {scene : Scene World Loader} {α : Type} (id : ClassId) {change : ClassEdit Id α}
      (hspares : change.SparesFrozen) : Step scene (scene.editing id change)
  /-- Anything is done but to edit a class that was read. -/
  | change {scene : Scene World Loader} (workspace : Workspace Loader) (world : World)
      (hretains : Retains scene.workspace workspace) :
    Step scene { scene with workspace, world }

/-- What may come about in the course of time, from any workspace. -/
def Reachable (scene : Scene World Loader) : Prop :=
  ∃ workspace world, Relation.ReflTransGen Step (start workspace world) scene

/-- The rewrites of one class. -/
def callsOn (scene : Scene World Loader) (id : ClassId) : List Call :=
  scene.calls.filter (·.id = id)

/-- A call that left the class frozen left it as every later call finds it. -/
structure Sound (scene : Scene World Loader) : Prop where
  proper : ∀ call ∈ scene.calls, call.Proper
  lasting : ∀ id, (scene.callsOn id).Pairwise fun earlier later ↦
    earlier.after.frozen = true → later.before = earlier.after
  current : ∀ id, ∀ call ∈ scene.callsOn id, call.after.frozen = true →
    scene.workspace.classes[id]? = some call.after

theorem sound_start (workspace : Workspace Loader) (world : World) :
    (start workspace world).Sound where
  proper _ hcall := absurd hcall List.not_mem_nil
  lasting _ := .nil
  current _ _ hcall := absurd hcall List.not_mem_nil

/-! ### What one step preserves -/

/-- As far as frozen classes stay as they are, the calls so far stay what they were. -/
theorem Sound.congr (h : scene.Sound) {workspace : Workspace Loader} (world : World)
    (hkeeps : ∀ (id : ClassId) (cls : EditableClass), scene.workspace.classes[id]? = some cls →
      cls.frozen = true → workspace.classes[id]? = some cls) :
    Sound { scene with workspace, world } where
  proper := h.proper
  lasting := h.lasting
  current id call hmem hfrozen := hkeeps id call.after (h.current id call hmem hfrozen) hfrozen

theorem edit_run {α : Type} (change : ClassEdit Id α) (world : World)
    {workspace : Workspace Loader} (h : workspace.classes[id]? = some cls) :
    ((edit id change).run.run workspace).run world =
      (((change.run.run cls).1, { workspace with
        classes := workspace.classes.setIfInBounds id (change.run.run cls).2 }), world) := by
  have hmeets : Meets (· = world) (edit id change).run workspace _ := edit_meets h
  obtain ⟨hworld, houtcome, hafter⟩ := hmeets world rfl
  exact Prod.ext (Prod.ext houtcome hafter) hworld

theorem edit_run_of_none {α : Type} (change : ClassEdit Id α) (world : World)
    {workspace : Workspace Loader} (h : workspace.classes[id]? = none) :
    ((edit id change).run.run workspace).run world =
      ((.error (.classNotFound ("#" ++ toString id)), workspace), world) := by
  have hends : Ends (· = world) (edit id change) workspace (fun _ _ ↦ False) fun failure after ↦
      failure = .classNotFound ("#" ++ toString id) ∧ after = workspace := by
    refine ends_bind (ends_get ?_)
    rw [h]
    exact ends_throw ⟨rfl, rfl⟩
  obtain ⟨hworld, hend⟩ := hends world rfl
  rcases hran : ((edit id change).run.run workspace).run world with ⟨⟨outcome, after⟩, later⟩
  rw [hran] at hworld hend
  cases outcome with
  | ok answer => exact hend.elim
  | error failure =>
    obtain ⟨rfl, rfl⟩ := hend
    obtain rfl : later = world := hworld
    rfl

theorem Sound.editing {α : Type} (h : scene.Sound) {change : ClassEdit Id α}
    (hspares : change.SparesFrozen) : (scene.editing id change).Sound := by
  refine h.congr _ fun other cls hcls hfrozen ↦ ?_
  cases hclass : scene.workspace.classes[id]? with
  | none =>
    rw [edit_run_of_none change scene.world hclass]
    exact hcls
  | some edited =>
    rw [edit_run change scene.world hclass]
    by_cases hsame : id = other
    · subst hsame
      obtain rfl : edited = cls := Option.some.inj (hclass.symm.trans hcls)
      obtain ⟨hlt, -⟩ := Array.getElem?_eq_some_iff.mp hclass
      exact (Array.getElem?_setIfInBounds_self_of_lt hlt).trans
        (congrArg some (hspares edited hfrozen))
    · exact (Array.getElem?_setIfInBounds_ne hsame).trans hcls

/-- The call that a rewrite of a class is kept as. -/
theorem rewriting_eq (hskip : rewrite.policy = .skip)
    (hclass : scene.workspace.classes[id]? = some cls) :
    ∃ call : Call, call.id = id ∧ call.before = cls ∧ call.Proper ∧
      (scene.rewriting rewrite id cls).calls = scene.calls ++ [call] ∧
      ∀ other, (scene.rewriting rewrite id cls).workspace.classes[other]? =
        if id = other then some call.after else scene.workspace.classes[other]? := by
  obtain ⟨hlt, -⟩ := Array.getElem?_eq_some_iff.mp hclass
  have hset (after : EditableClass) (other : ClassId) :
      (scene.workspace.classes.setIfInBounds id after)[other]? =
        if id = other then some after else scene.workspace.classes[other]? := by
    rw [Array.getElem?_setIfInBounds]
    by_cases hsame : id = other
    · subst hsame
      rw [if_pos rfl, if_pos rfl, if_pos hlt]
    · rw [if_neg hsame, if_neg hsame]
  rw [rewriting, edit_run _ _ hclass, hset, if_pos rfl]
  refine ⟨_, rfl, rfl, ⟨hskip, ?_⟩, rfl, hset _⟩
  rw [← hskip, ← rewrite.weave_transformer]
  rfl

theorem Sound.rewriting (h : scene.Sound) (hskip : rewrite.policy = .skip)
    (hclass : scene.workspace.classes[id]? = some cls) :
    (scene.rewriting rewrite id cls).Sound := by
  obtain ⟨call, rfl, rfl, hproper, hcalls, hclasses⟩ := rewriting_eq hskip hclass
  have hon (other : ClassId) : (scene.rewriting rewrite call.id call.before).callsOn other =
      scene.callsOn other ++ if call.id = other then [call] else [] := by
    rw [callsOn, hcalls, List.filter_append, List.filter_singleton]
    by_cases hsame : call.id = other <;> simp [hsame, callsOn]
  -- A class that an earlier call left frozen is still as it was left when this call is made.
  have hfound : ∀ earlier ∈ scene.callsOn call.id, earlier.after.frozen = true →
      call.before = earlier.after := by
    intro earlier hearlier hfrozen
    exact Option.some.inj (hclass.symm.trans (h.current call.id earlier hearlier hfrozen))
  refine ⟨?_, fun other ↦ ?_, fun other earlier hearlier hfrozen ↦ ?_⟩
  · rw [hcalls]
    exact List.forall_mem_append.mpr ⟨h.proper, List.forall_mem_singleton.mpr hproper⟩
  · rw [hon]
    split
    · rename_i hsame
      subst hsame
      refine List.pairwise_append.mpr ⟨h.lasting _, List.pairwise_singleton .., ?_⟩
      intro earlier hearlier last hlast
      obtain rfl := List.mem_singleton.mp hlast
      exact hfound earlier hearlier
    · rw [List.append_nil]
      exact h.lasting other
  · rw [hon] at hearlier
    rw [hclasses]
    split
    · rename_i hsame
      subst hsame
      rw [if_pos rfl] at hearlier
      rcases List.mem_append.mp hearlier with hold | hnew
      · have hbefore := hfound earlier hold hfrozen
        rw [(hproper.of_frozen (hbefore ▸ hfrozen)).2, hbefore]
      · rw [List.mem_singleton.mp hnew]
    · rename_i hother
      rw [if_neg hother, List.append_nil] at hearlier
      exact h.current other earlier hearlier hfrozen

theorem Sound.step (h : scene.Sound) (hstep : Step scene later) : later.Sound := by
  cases hstep with
  | rewrite rewrite hskip hclass => exact h.rewriting hskip hclass
  | edit id hspares => exact h.editing hspares
  | change workspace world hretains => exact h.congr world fun id cls hcls _ ↦ hretains id cls hcls

theorem sound_of_reachable (h : scene.Reachable) : scene.Sound := by
  obtain ⟨workspace, world, hsteps⟩ := h
  induction hsteps with
  | refl => exact sound_start workspace world
  | tail _ hstep ih => exact ih.step hstep

/-! ### What all calls on a class come to -/

section Calls

variable {call : Call} {front back : List Call}

theorem Sound.outcome_iff (h : scene.Sound) (hcall : call ∈ scene.callsOn id) :
    (∃ bytes, call.outcome = .ok (some bytes)) ↔ call.Changes := by
  have hproper := h.proper call (List.mem_of_mem_filter hcall)
  constructor
  · rintro ⟨bytes, hbytes⟩
    exact hproper.changes_of_bytes hbytes
  · exact fun hchanges ↦ ⟨_, (hproper.of_changes hchanges).1⟩

/-- A call that changes a class is the first to do so, since every other leaves the class frozen. -/
theorem Sound.first (h : scene.Sound) (hcalls : scene.callsOn id = front ++ call :: back)
    (hchanges : call.Changes) : ∀ earlier ∈ front, ¬earlier.Changes := by
  intro earlier hearlier hchanged
  have hproper := h.proper earlier
    (List.mem_of_mem_filter (hcalls ▸ List.mem_append_left _ hearlier))
  have hfrozen := (hproper.of_changes hchanged).2
  obtain ⟨-, -, hlasting⟩ := List.pairwise_append.mp (hcalls ▸ h.lasting id)
  have hbefore := hlasting earlier hearlier call List.mem_cons_self hfrozen
  exact Bool.false_ne_true (hchanges.1.symm.trans (hbefore ▸ hfrozen))

/-- Behind a call that changes a class, all calls find the class frozen. -/
theorem Sound.skipped (h : scene.Sound) (hcalls : scene.callsOn id = front ++ call :: back)
    (hchanges : call.Changes) :
    ∀ later ∈ back, later.outcome = .ok none ∧ later.before = call.after ∧
      later.after = call.after := by
  have hmem : call ∈ scene.callsOn id := hcalls ▸ List.mem_append_right _ List.mem_cons_self
  have hfrozen := ((h.proper call (List.mem_of_mem_filter hmem)).of_changes hchanges).2
  obtain ⟨-, hlasting, -⟩ := List.pairwise_append.mp (hcalls ▸ h.lasting id)
  intro later hlater
  have hbefore := (List.pairwise_cons.mp hlasting).1 later hlater hfrozen
  have hproper := h.proper later (List.mem_of_mem_filter
    (hcalls ▸ List.mem_append_right _ (List.mem_cons_of_mem _ hlater)))
  obtain ⟨houtcome, hafter⟩ := hproper.of_frozen (hbefore ▸ hfrozen)
  exact ⟨houtcome, hbefore, hafter.trans hbefore⟩

end Calls

end Scene

/-! ### Looking classes up -/

section Lookup

variable {before between after : Workspace Loader}

theorem Retains.refl (workspace : Workspace Loader) : Retains workspace workspace :=
  fun _ _ ↦ id

theorem Retains.trans (h : Retains before between) (hlater : Retains between after) :
    Retains before after :=
  fun id cls hcls ↦ hlater id cls (h id cls hcls)

/-- Classes are added behind those that there are. -/
theorem retains_push (before : Workspace Loader) (pool : Option (ClassPool Loader))
    (cls : EditableClass) :
    Retains before { before with classes := before.classes.push cls, pool } := by
  intro id old hold
  obtain ⟨hlt, -⟩ := Array.getElem?_eq_some_iff.mp hold
  exact (Array.getElem?_push_lt hlt).trans ((Array.getElem?_eq_getElem hlt).symm.trans hold)

theorem covers_retains : Covers (Retains : Workspace Loader → Workspace Loader → Prop) where
  refl := .refl
  trans := .trans
  search before _ _ _ := .refl before
  read before cls pool := retains_push before pool cls

/-- In whatever world, the work retains all classes. -/
def RetainsAll {α : Type} (work : Work World Loader α) : Prop :=
  ∀ before, Meets (fun _ ↦ True) work before fun _ after ↦ Retains before after

theorem retainsAll_getClassFor (access : Access World Loader) (name : String)
    (loader : Option Loader) : RetainsAll (getClassFor access loader name).run :=
  covers_retains.relates_getClassFor access.staysIn_all loader name

end Lookup

/-! ### Transformers that skip frozen classes -/

theorem release_run (change : Lock.Holds → Except StateError Lock.Holds)
    (workspace : Workspace Loader) (world : World) :
    ∃ holds, ((release change).run workspace).run world =
      (((), { workspace with holds }), world) := by
  have hmeets : Meets (· = world) (release change) workspace
      fun _ after ↦ ∃ holds, after = { workspace with holds } := by
    refine meets_modify ?_
    split
    · exact ⟨_, rfl⟩
    · exact ⟨workspace.holds, rfl⟩
  obtain ⟨hworld, holds, hafter⟩ := hmeets world rfl
  exact ⟨holds, Prod.ext (Prod.ext rfl hafter) hworld⟩

theorem release_run_of_ok {change : Lock.Holds → Except StateError Lock.Holds} {holds : Lock.Holds}
    {workspace : Workspace Loader} (h : change workspace.holds = .ok holds) (world : World) :
    ((release change).run workspace).run world = (((), { workspace with holds }), world) := by
  simp only [release, StateT.run_modify, h]
  rfl

/-- The work is done between taking the lock and releasing it. -/
theorem shared_run_of_release {α : Type} {work : Work World Loader α} {answer : α}
    {workspace ended after : Workspace Loader} {world later last : World}
    (hwork : (work.run { workspace with holds := workspace.holds.lockShared }).run world =
      ((answer, ended), later))
    (hreleased : ((release Lock.Holds.unlockShared).run ended).run later = (((), after), last)) :
    ((shared work).run workspace).run world = ((answer, after), last) := by
  have hrun : ((shared work).run workspace).run world =
      let done := (work.run { workspace with holds := workspace.holds.lockShared }).run world
      let released := ((release Lock.Holds.unlockShared).run done.1.2).run done.2
      ((done.1.1, released.1.2), released.2) := rfl
  rw [hrun, hwork]
  dsimp only
  rw [hreleased]

/-- To hold the lock changes nothing but the holds. -/
theorem shared_run {α : Type} (work : Work World Loader α) (workspace : Workspace Loader)
    (world : World) :
    let ended := (work.run { workspace with holds := workspace.holds.lockShared }).run world
    ∃ holds, ((shared work).run workspace).run world =
      ((ended.1.1, { ended.1.2 with holds }), ended.2) := by
  intro ended
  obtain ⟨holds, hreleased⟩ := release_run Lock.Holds.unlockShared ended.1.2 ended.2
  exact ⟨holds, shared_run_of_release rfl hreleased⟩

namespace Scene

variable (access : Access World Loader) (loader : Option Loader) (name : String)
  {rewrite : Rewrite}

/-- A transformer was asked about a class, which came to `answer`: either a class was rewritten
and the outcome of that is the answer, or there are no bytes. If the pool has the class, that is the
one that was rewritten. -/
def Asks (scene : Scene World Loader) (name : String) (rewrite : Rewrite)
    (answer : Except Failure (Option Bytes)) (later : Scene World Loader) : Prop :=
  (later.calls = scene.calls ∧ (answer = .ok none ∨ ∃ failure, answer = .error failure)) ∨
    ∃ call : Call, later.calls = scene.calls ++ [call] ∧ call.rewrite = rewrite ∧
      call.outcome = answer ∧
      ∀ id, scene.workspace.Pools (ClassName.dotted name) id → call.id = id

theorem exists_steps_fetchAndWeave (hskip : rewrite.policy = .skip)
    (scene : Scene World Loader) :
    let ended := ((fetchAndWeave access rewrite.transformer loader name).run.run
      scene.workspace).run scene.world
    ∃ later, Relation.ReflTransGen Step scene later ∧ later.workspace = ended.1.2 ∧
      later.world = ended.2 ∧ scene.Asks name rewrite ended.1.1 later := by
  intro ended
  have hretains := (retainsAll_getClassFor access name loader scene.workspace scene.world trivial).2
  have hrun : ended = _ := failing_bind_run (getClassFor access loader name)
    (fun id ↦ edit id rewrite.transformer.weave) scene.workspace scene.world
  rcases hfound : ((getClassFor access loader name).run.run scene.workspace).run scene.world
    with ⟨⟨outcome, between⟩, world⟩
  rw [hfound] at hretains hrun
  let looked : Scene World Loader := { scene with workspace := between, world }
  have hlooked : Relation.ReflTransGen Step scene looked := .single (.change between world hretains)
  cases outcome with
  | error failure =>
    refine ⟨looked, hlooked, ?_⟩
    rw [hrun]
    exact ⟨rfl, rfl, .inl ⟨rfl, .inr ⟨failure, rfl⟩⟩⟩
  | ok id =>
    have hedited : ended = ((edit id (rewrite.transformer : Transformer Loader).weave).run.run
        between).run world := hrun
    cases hclass : between.classes[id]? with
    | none =>
      refine ⟨looked, hlooked, ?_⟩
      rw [hedited, edit_run_of_none _ _ hclass]
      exact ⟨rfl, rfl, .inl ⟨rfl, .inr ⟨_, rfl⟩⟩⟩
    | some cls =>
      refine ⟨looked.rewriting rewrite id cls, hlooked.tail (.rewrite rewrite hskip hclass), ?_⟩
      rw [hedited]
      refine ⟨rfl, rfl, .inr ⟨_, rfl, rfl, rfl, fun other hpools ↦ ?_⟩⟩
      have hends : Ends (fun _ ↦ True) (getClassFor access loader name) scene.workspace _ _ :=
        getClassFor_ends_of_getClass loader (getClass_ends_of_pools hpools)
      have hpooled := (hends scene.world trivial).2
      rw [hfound] at hpooled
      exact hpooled.1

/-- What a transformer does consists of steps. -/
theorem exists_steps_transform (hskip : rewrite.policy = .skip) (scene : Scene World Loader) :
    let ended := ((transform access rewrite.transformer loader name).run scene.workspace).run
      scene.world
    ∃ later, Relation.ReflTransGen Step scene later ∧ later.workspace = ended.1.2 ∧
      later.world = ended.2 ∧ scene.Asks name rewrite ended.1.1 later := by
  by_cases haccept : rewrite.transformer.accept loader name = true
  · obtain ⟨holds, hrun⟩ := shared_run (fetchAndWeave access rewrite.transformer loader name).run
      scene.workspace scene.world
    rw [transform, if_pos haccept, hrun]
    let locked : Scene World Loader :=
      { scene with workspace := { scene.workspace with holds := scene.workspace.holds.lockShared } }
    have hlocked : Step scene locked := .change _ _ fun _ _ ↦ id
    obtain ⟨woven, hsteps, hworkspace, hworld, hasks⟩ :=
      exists_steps_fetchAndWeave access loader name hskip locked
    let released : Scene World Loader := { woven with workspace := { woven.workspace with holds } }
    have hreleased : Step woven released := .change _ _ fun _ _ ↦ id
    refine ⟨released, (Relation.ReflTransGen.head hlocked hsteps).tail hreleased, ?_⟩
    exact ⟨congrArg (fun workspace ↦ { workspace with holds }) hworkspace, hworld, hasks⟩
  · rw [transform, if_neg haccept]
    exact ⟨scene, .refl, rfl, rfl, .inl ⟨rfl, .inl rfl⟩⟩

end Scene

end ClassWeaver.Rewriting
