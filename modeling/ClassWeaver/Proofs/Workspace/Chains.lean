import ClassWeaver.Proofs.Workspace.Rewriting

/-!
Chains of transformers that skip frozen classes.

The last bytes that a chain makes are the ones that count. If its transformers skip frozen classes,
those are the bytes of the first transformer that changes the class, since there are no others
(`transformChain_meets`). All in all, a class is rewritten at most once (`rewritten_once`).
-/

set_option autoImplicit false
set_option relaxedAutoImplicit false

namespace ClassWeaver.Rewriting

open Code Search Workspace

variable {World Loader : Type}

/-! ### The first rewrite that changes a class -/

/-- None of the rewrites changes the class, which is `last` in the end. One that fails leaves the
class as it was. -/
inductive Declined : List Rewrite → EditableClass → EditableClass → Prop
  | nil (cls : EditableClass) : Declined [] cls cls
  | unchanged {rewrite : Rewrite} {rest : List Rewrite} {cls between last : EditableClass}
      (hrun : rewrite.edit.run.run cls = (.ok false, between))
      (hrest : Declined rest between last) : Declined (rewrite :: rest) cls last
  | failed {rewrite : Rewrite} {rest : List Rewrite} {cls left last : EditableClass}
      {failure : Failure} (hrun : rewrite.edit.run.run cls = (.error failure, left))
      (hrest : Declined rest cls last) : Declined (rewrite :: rest) cls last

/-- One of the rewrites changes the class, none before it does, and the bytes are those of the
class then. -/
def FirstChanges (rewrites : List Rewrite) (cls : EditableClass) (bytes : Bytes) : Prop :=
  ∃ front rewrite back before after, rewrites = front ++ rewrite :: back ∧
    Declined front cls before ∧ rewrite.edit.run.run before = (.ok true, after) ∧
    after.bytes = bytes

/-- The bytes that are made of the class, if any. -/
def firstChange : List Rewrite → EditableClass → Option Bytes
  | [], _ => none
  | rewrite :: rest, cls =>
    match rewrite.edit.run.run cls with
    | (.ok true, after) => some after.bytes
    | (.ok false, between) => firstChange rest between
    | (.error _, _) => firstChange rest cls

/-- What `answer` says of the rewrites holds of them. -/
def Tells (rewrites : List Rewrite) (cls : EditableClass) (answer : Option Bytes) : Prop :=
  match answer with
  | some bytes => FirstChanges rewrites cls bytes
  | none => ∃ last, Declined rewrites cls last

section FirstChange

variable {rewrite : Rewrite} {front rest rewrites : List Rewrite}
  {cls between last : EditableClass} {answer : Option Bytes}

/-- The first rewrite does not change the class. -/
theorem Tells.cons (h : Tells rest between answer)
    (hfirst : ∀ front last, Declined front between last → Declined (rewrite :: front) cls last) :
    Tells (rewrite :: rest) cls answer := by
  cases answer with
  | none =>
    obtain ⟨last, hlast⟩ := h
    exact ⟨last, hfirst rest last hlast⟩
  | some bytes =>
    obtain ⟨front, changing, back, before, after, rfl, hfront, hchanges⟩ := h
    exact ⟨rewrite :: front, changing, back, before, after, rfl, hfirst front before hfront,
      hchanges⟩

theorem tells_firstChange (rewrites : List Rewrite) (cls : EditableClass) :
    Tells rewrites cls (firstChange rewrites cls) := by
  induction rewrites generalizing cls with
  | nil => exact ⟨cls, .nil cls⟩
  | cons rewrite rest ih =>
    rw [firstChange]
    rcases hran : rewrite.edit.run.run cls with ⟨outcome, after⟩
    cases outcome with
    | error failure => exact (ih cls).cons fun _ _ ↦ .failed hran
    | ok answer =>
      cases answer with
      | true => exact ⟨[], rewrite, rest, cls, after, rfl, .nil cls, hran, rfl⟩
      | false => exact (ih after).cons fun _ _ ↦ .unchanged hran

theorem Declined.firstChange_append (h : Declined front cls last) (rest : List Rewrite) :
    firstChange (front ++ rest) cls = firstChange rest last := by
  induction h with
  | nil cls => rfl
  | unchanged hrun _ ih =>
    rw [List.cons_append, firstChange, hrun]
    exact ih
  | failed hrun _ ih =>
    rw [List.cons_append, firstChange, hrun]
    exact ih

theorem Tells.firstChange_eq (h : Tells rewrites cls answer) :
    firstChange rewrites cls = answer := by
  cases answer with
  | none =>
    obtain ⟨last, hlast⟩ := h
    have hnone := hlast.firstChange_append []
    rwa [List.append_nil] at hnone
  | some bytes =>
    obtain ⟨front, rewrite, back, before, after, rfl, hfront, hrun, rfl⟩ := h
    rw [hfront.firstChange_append, firstChange, hrun]

/-- There are no two answers. -/
theorem firstChange_eq_iff : firstChange rewrites cls = answer ↔ Tells rewrites cls answer :=
  ⟨fun h ↦ h ▸ tells_firstChange rewrites cls, Tells.firstChange_eq⟩

end FirstChange

/-! ### Running a chain -/

/-- The class called `name` is found for `loader`, and is `cls`. -/
def Finds (worlds : World → Prop) (access : Access World Loader) (loader : Option Loader)
    (name : String) (workspace : Workspace Loader) (cls : EditableClass) : Prop :=
  ∀ holds, Ends worlds (getClassFor access loader name) { workspace with holds }
    (fun id after ↦ after.Pools (ClassName.dotted name) id ∧ after.classes[id]? = some cls)
    fun _ _ ↦ False

section Chain

variable {worlds : World → Prop} {access : Access World Loader} {loader : Option Loader}
  {name : String} {workspace : Workspace Loader} {id : ClassId} {cls : EditableClass}

theorem finds_of_pools (hpools : workspace.Pools (ClassName.dotted name) id)
    (hclass : workspace.classes[id]? = some cls) :
    Finds worlds access loader name workspace cls := by
  intro holds
  have hheld : Pools { workspace with holds } (ClassName.dotted name) id := hpools
  refine getClassFor_ends_of_getClass loader
    ((getClass_ends_of_pools hheld).imp ?_ fun _ _ ↦ False.elim)
  rintro answer after ⟨rfl, rfl⟩
  exact ⟨hpools, hclass⟩

/-- A transformer that accepts a class weaves it, and the class is found again. -/
theorem transform_meets_of_finds {transformer : Transformer Loader}
    (h : Finds worlds access loader name workspace cls)
    (haccept : transformer.accept loader name = true) :
    Meets worlds (transform access transformer loader name) workspace fun answer after ↦
      answer = (transformer.weave.run.run cls).1 ∧
        Finds worlds access loader name after (transformer.weave.run.run cls).2 := by
  refine (transform_meets_of_accept haccept h).imp ?_
  rintro answer after ⟨hanswer, id, between, holds, hpools, hclass, rfl⟩
  obtain ⟨hlt, -⟩ := Array.getElem?_eq_some_iff.mp hclass
  exact ⟨hanswer, finds_of_pools hpools (Array.getElem?_setIfInBounds_self_of_lt hlt)⟩

/-- The bytes that a result contributes to what comes of a chain. -/
def contributed : Except Failure (Option Bytes) → Option Bytes
  | .ok bytes => bytes
  | .error _ => none

/-- Later bytes take the place of earlier ones. -/
theorem transformChain_cons_meets {transformer : Transformer Loader}
    {rest : List (Transformer Loader)} {post : Option Bytes → Workspace Loader → Prop}
    (h : Meets worlds (transform access transformer loader name) workspace fun result after ↦
      Meets worlds (transformChain access loader name rest) after fun answer last ↦
        post (answer.or (contributed result)) last) :
    Meets worlds (transformChain access loader name (transformer :: rest)) workspace post := by
  refine meets_bind (h.imp fun result after hrest ↦ ?_)
  refine meets_bind (hrest.imp fun answer last hpost ↦ ?_)
  cases answer with
  | some bytes => exact meets_pure hpost
  | none =>
    cases result with
    | ok bytes => exact meets_pure hpost
    | error failure => exact meets_pure hpost

/-- Once the class is frozen, nothing is made of it; until then, what counts is the first change. -/
theorem transformChain_meets {rewrites : List Rewrite}
    (hskip : ∀ rewrite ∈ rewrites, rewrite.policy = .skip)
    (h : Finds worlds access loader name workspace cls) :
    Meets worlds (transformChain access loader name (rewrites.map Rewrite.transformer)) workspace
      fun answer _ ↦ answer = if cls.frozen then none else
        firstChange (rewrites.filter (·.transformer.accept loader name)) cls := by
  induction rewrites generalizing workspace cls with
  | nil =>
    refine meets_pure ?_
    split
    · rfl
    · rfl
  | cons rewrite rest ih =>
    obtain ⟨hfirst, hrest⟩ := List.forall_mem_cons.mp hskip
    refine transformChain_cons_meets ?_
    by_cases haccept : (rewrite.transformer : Transformer Loader).accept loader name = true
    · rw [List.filter_cons, if_pos haccept]
      refine (transform_meets_of_finds h haccept).imp ?_
      rintro result after ⟨rfl, hfinds⟩
      refine (ih hrest hfinds).imp ?_
      rintro answer last rfl
      cases hfrozen : cls.frozen with
      | true =>
        rw [weave_of_frozen hfirst hfrozen, hfrozen]
        rfl
      | false =>
        have hspares := (rewrite.spares_edit cls).frozen
        rw [weave_of_thawed hfirst hfrozen, firstChange]
        rcases hran : rewrite.edit.run.run cls with ⟨outcome, edited⟩
        rw [hran, hfrozen] at hspares
        cases outcome with
        | error failure =>
          rw [hfrozen]
          exact Option.or_none
        | ok answer =>
          cases answer with
          | true => rfl
          | false =>
            rw [hspares]
            exact Option.or_none
    · rw [List.filter_cons, if_neg haccept, transform, if_neg haccept]
      refine meets_pure ((ih hrest h).imp ?_)
      rintro answer last rfl
      exact Option.or_none

/-- A chain in which no transformer could want the class does nothing. -/
theorem transformChain_of_unwanted {chain : List (Transformer Loader)}
    (hgate : ∀ transformer ∈ chain, transformer.accept loader name = true →
      transformer.mayAccept name = true) (h : Transformer.wanted chain name = false) :
    transformChain access loader name chain = pure none := by
  induction chain with
  | nil => rfl
  | cons transformer rest ih =>
    obtain ⟨hfirst, hrest⟩ := List.forall_mem_cons.mp hgate
    obtain ⟨hunwanted, hothers⟩ := Bool.or_eq_false_iff.mp h
    have hreject : ¬transformer.accept loader name = true := fun haccept ↦
      Bool.false_ne_true (hunwanted.symm.trans (hfirst haccept))
    rw [transformChain, transform, if_neg hreject, pure_bind, ih hrest hothers, pure_bind]

end Chain

/-! ### Rewriting a class at most once -/

/-- A class is rewritten at most once. Of all rewrites of a class, in whatever order they are made
and whatever else is done but to defrost, those hand out bytes that change the class. If one does,
none before it has; it freezes the class; and all rewrites after it hand out nothing and leave the
class alone. What a transformer does when it is asked consists of such steps. So if a class is
open, what comes of a chain is what its first transformer makes that accepts and changes the class,
if there is one. If a chain wants nothing of a class, then nothing is touched. The chains that
options ask for are of this kind. -/
theorem rewritten_once (access : Access World Loader) :
    (∀ scene : Scene World Loader, scene.Reachable → ∀ (id : ClassId) (front : List Call)
      (call : Call) (back : List Call), scene.callsOn id = front ++ call :: back →
        ((∃ bytes, call.outcome = .ok (some bytes)) ↔ call.Changes) ∧
        (call.Changes → (∀ earlier ∈ front, ¬earlier.Changes) ∧
          call.outcome = .ok (some call.after.bytes) ∧ call.after.frozen = true ∧
          (∀ later ∈ back, later.outcome = .ok none ∧ later.before = call.after ∧
            later.after = call.after) ∧
          scene.workspace.classes[id]? = some call.after)) ∧
    (∀ (scene : Scene World Loader) (loader : Option Loader) (name : String) (rewrite : Rewrite),
      rewrite.policy = .skip →
        let ended := ((transform access rewrite.transformer loader name).run scene.workspace).run
          scene.world
        ∃ later, Relation.ReflTransGen Scene.Step scene later ∧ later.workspace = ended.1.2 ∧
          later.world = ended.2 ∧ scene.Asks name rewrite ended.1.1 later) ∧
    (∀ (worlds : World → Prop) (loader : Option Loader) (name : String)
      (workspace : Workspace Loader) (cls : EditableClass) (rewrites : List Rewrite),
      (∀ rewrite ∈ rewrites, rewrite.policy = .skip) →
        Finds worlds access loader name workspace cls → cls.frozen = false →
          let accepting := rewrites.filter (·.transformer.accept loader name)
          Meets worlds (transformChain access loader name (rewrites.map Rewrite.transformer))
            workspace fun answer _ ↦
              (∀ bytes, answer = some bytes ↔ FirstChanges accepting cls bytes) ∧
              (answer = none ↔ ∃ last, Declined accepting cls last)) ∧
    (∀ (loader : Option Loader) (name : String) (workspace : Workspace Loader) (world : World)
      (rewrites : List Rewrite),
      let chain : List (Transformer Loader) := rewrites.map Rewrite.transformer
      Transformer.wanted chain name = false →
        ((transformChain access loader name chain).run workspace).run world =
          ((none, workspace), world)) ∧
    ∀ (options : Options) (chain : List (Transformer Loader)),
      options.transformers = .ok chain → ∃ rewrites : List Rewrite,
        rewrites.map Rewrite.transformer = chain ∧
          ∀ rewrite ∈ rewrites, rewrite.policy = .skip := by
  refine ⟨fun scene hreachable id front call back hcalls ↦ ?_, fun scene loader name rewrite hskip ↦
    scene.exists_steps_transform access loader name hskip, ?_, ?_,
    fun options chain ↦ Rewrite.exists_rewrites_of_options⟩
  · have hsound := Scene.sound_of_reachable hreachable
    have hmem : call ∈ scene.callsOn id :=
      hcalls ▸ List.mem_append_right front List.mem_cons_self
    refine ⟨hsound.outcome_iff hmem, fun hchanges ↦ ?_⟩
    have hproper := hsound.proper call (List.mem_of_mem_filter hmem)
    obtain ⟨houtcome, hfrozen⟩ := hproper.of_changes hchanges
    exact ⟨hsound.first hcalls hchanges, houtcome, hfrozen, hsound.skipped hcalls hchanges,
      hsound.current id call hmem hfrozen⟩
  · intro worlds loader name workspace cls rewrites hskip hfinds hthawed
    refine (transformChain_meets hskip hfinds).imp ?_
    rintro answer - rfl
    rw [hthawed]
    exact ⟨fun bytes ↦ firstChange_eq_iff, firstChange_eq_iff⟩
  · intro loader name workspace world rewrites chain hunwanted
    have hgate : ∀ transformer ∈ chain, transformer.accept loader name = true →
        transformer.mayAccept name = true := by
      refine List.forall_mem_map.mpr fun rewrite _ haccept ↦ ?_
      rw [rewrite.accept_transformer] at haccept
      rwa [rewrite.mayAccept_transformer]
    rw [transformChain_of_unwanted hgate hunwanted]
    rfl

/-- A class with a method that assigns to a field. -/
def counter : EditableClass :=
  let file : ClassFile :=
    { minor := 0
      major := 52
      pool := ⟨#[none, some (.utf8 "A"), some (.classRef 1), some (.utf8 "Code"), some (.utf8 "m"),
        some (.utf8 "()V"), some (.utf8 "f"), some (.utf8 "I"), some (.nameAndType 6 7),
        some (.fieldRef 2 8)]⟩
      access := 0
      thisClass := 2
      superClass := 0
      interfaces := []
      fields := []
      methods := [⟨0, 4, 5, [⟨3, .code ⟨1, 1, [0x03, 0xb3, 0x00, 0x09, 0xb1], [], []⟩⟩]⟩]
      attributes := [] }
  ⟨"A", file, file.bytes, false, false⟩

def counting (amount : Int32) : Rewrite :=
  .increment ⟨"A", "m", amount, .skip⟩

/-- The class after its assignment became an increment. -/
def counted : EditableClass :=
  { ((counting 1).edit.run.run counter).2 with frozen := true }

/-- Nothing is found outside the pool. -/
def poolOnly : Access Unit Empty where
  toFiles := .none
  findResource := nofun
  sameLoader := nofun

/-- The class has the number 0. -/
def pooled : Workspace Empty where
  registry := .ofSystem []
  pool := some ⟨0, [], [("A", 0)]⟩
  poolCount := 1
  classes := #[counter]
  holds := .none

/-- An edit that a frozen class refuses. -/
def replacing : ClassEdit Id Bytes := do
  let _ ← ClassEdit.changeFile (modify fun file ↦ { file with access := 1 })
  let _ ← ClassEdit.editMethod 0 fun _ ↦ BodyEdit.record (·.replace 0 [])
  ClassEdit.serialize

theorem sparesFrozen_replacing : replacing.SparesFrozen :=
  (ClassEdit.sparesFrozen_changeFile _).bind fun _ ↦
    (ClassEdit.sparesFrozen_editMethod 0 _).bind fun _ ↦ ClassEdit.sparesFrozen_serialize

/-- Two rewrites were made of the class, and another edit was tried between them. -/
def rewrittenTwice : Scene Unit Empty :=
  (((Scene.start pooled ()).rewriting (counting 1) 0 counter).editing 0 replacing).rewriting
    (counting 2) 0 counted

theorem reachable_rewrittenTwice : rewrittenTwice.Reachable :=
  ⟨pooled, (), .tail (.tail (.tail .refl (.rewrite (counting 1) rfl rfl))
    (.edit 0 sparesFrozen_replacing)) (.rewrite (counting 2) rfl rfl)⟩

def countingOptions : Options where
  logLevel := .info
  weavings := [.increment]
  target := some "A"
  method := some "m"
  increment := 1
  replace := none
  factory := none
  paths := []

/-- The class that the first rewrite changed is left alone by the second. -/
theorem rewritten_once_counter :
    (rewrittenTwice.Reachable ∧
      ∃ first second, rewrittenTwice.callsOn 0 = [first, second] ∧ first.Changes ∧
        first.outcome = .ok (some first.after.bytes) ∧ second.outcome = .ok none ∧
        second.after = first.after) ∧
    (∃ later, Relation.ReflTransGen Scene.Step rewrittenTwice later ∧
      rewrittenTwice.Asks "A" (counting 3) (.ok none) later) ∧
    (((transformChain poolOnly none "A" [(counting 1).transformer, (counting 2).transformer]).run
      pooled).run ()).1.1 = some counted.bytes ∧
    ((transformChain poolOnly none "B" [(counting 1).transformer]).run pooled).run () =
      ((none, pooled), ()) ∧
    ∃ rewrites : List Rewrite,
      rewrites.map Rewrite.transformer = [((counting 1).transformer : Transformer Empty)] ∧
        ∀ rewrite ∈ rewrites, rewrite.policy = .skip := by
  obtain ⟨hscenes, hsteps, hchains, hunwanted, hoptions⟩ := rewritten_once poolOnly
  refine ⟨⟨reachable_rewrittenTwice, ?_⟩, ?_, ?_, ?_, ?_⟩
  · have hcalls : rewrittenTwice.callsOn 0 = [] ++
        ⟨0, counting 1, counter, .ok (some counted.bytes), counted⟩ ::
          [⟨0, counting 2, counted, .ok none, counted⟩] := rfl
    obtain ⟨-, hfirst⟩ := hscenes rewrittenTwice reachable_rewrittenTwice 0 _ _ _ hcalls
    obtain ⟨-, houtcome, -, hlater, -⟩ := hfirst ⟨rfl, rfl⟩
    obtain ⟨hskipped, -, hafter⟩ := hlater _ List.mem_cons_self
    exact ⟨_, _, hcalls, ⟨rfl, rfl⟩, houtcome, hskipped, hafter⟩
  · obtain ⟨later, hsteps, -, -, hasks⟩ := hsteps rewrittenTwice none "A" (counting 3) rfl
    exact ⟨later, hsteps, hasks⟩
  · have hfinds : Finds (fun _ ↦ True) poolOnly none "A" pooled counter :=
      finds_of_pools ⟨_, rfl, rfl⟩ rfl
    have hchain := hchains (fun _ ↦ True) none "A" pooled counter [counting 1, counting 2]
      (List.forall_mem_cons.mpr ⟨rfl, List.forall_mem_singleton.mpr rfl⟩) hfinds rfl
    refine ((hchain () trivial).2.1 counted.bytes).mpr ?_
    exact ⟨[], counting 1, [counting 2], counter, _, rfl, .nil counter, rfl, rfl⟩
  · exact hunwanted none "B" pooled () [counting 1] rfl
  · exact hoptions countingOptions _ rfl

end ClassWeaver.Rewriting
