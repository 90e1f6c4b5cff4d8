import ClassWeaver.Proofs.Agent.Readings
import Mathlib.Data.List.Basic

/-!
What asking loaders leaves behind, and how streams are closed.

A loader that is asked for a resource may give a stream (`Asked`). The stream is read, and then it
is closed, whether it could be read or not (`ClosedOnce`). Apart from the record of its calls,
nothing is left of that. Finding the loader that programs are started with leaves the weak reference
to it (`Grants`), and if that cannot be made, the exception that says so, which is not cleared
(`balanced_of_asking`).
-/

set_option autoImplicit false
set_option relaxedAutoImplicit false

namespace ClassWeaver.Agent.LoaderHandle

open Vm Vm.Machine Reading

variable {machine : Machine} {script : Script} {calls : List Call} {object : Option Object}
  {method : Method}

/-! ### Looking up methods -/

/-- After these calls, the class of the object is given and has the method. -/
def Resolves (script : Script) (calls : List Call) (object : Option Object) (method : Method) :
    Prop :=
  script.fate calls (.native (.getObjectClass object)) = .answer ∧
    script.fate (.native (.getObjectClass object) :: calls) (.native (.getMethod method)) = .answer

instance : Decidable (Resolves script calls object method) :=
  inferInstanceAs (Decidable (_ ∧ _))

/-- The calls that look up the method. -/
def lookups (script : Script) (calls : List Call) (object : Option Object) (method : Method) :
    List Call :=
  if script.fate calls (.native (.getObjectClass object)) = .answer then
    [.native (.getMethod method), .native (.getObjectClass object)]
  else [.native (.getObjectClass object)]

/-- The method is looked up with success if it resolves, and nothing else is left of that. -/
theorem resolve_run (object : Ref) (method : Method) (hpending : machine.pending = false) :
    ∃ number, (resolve object method).run.run machine =
      (if Resolves machine.script machine.calls (machine.target? object) method then .ok ()
        else .error ⟨⟩,
        machine.afterCalls
          (lookups machine.script machine.calls (machine.target? object) method) number) := by
  have hget : (Native.getObjectClass object).run machine =
      (Native.callFor (.getObjectClass (machine.target? object)) (some .classOfObject)).run
        machine := rfl
  rw [resolve, lift_bind_run, hget]
  generalize machine.target? object = asked
  obtain ⟨hrefused, pending, hrun, hkept⟩ | ⟨_, ⟨⟩, hclass, hrun⟩ :=
    Native.callFor_cases (.getObjectClass asked) (some .classOfObject) machine
  · have hclass : ¬ machine.script.fate machine.calls (.native (.getObjectClass asked)) = .answer :=
      fun h ↦ Option.some_ne_none _ (hrefused h)
    have hfails : ¬ Resolves machine.script machine.calls asked method := fun h ↦ hclass h.1
    refine ⟨machine.nextRef, ?_⟩
    rw [hrun, hkept rfl, if_neg hfails, lookups, if_neg hclass]
    rfl
  · refine ⟨machine.nextRef + 1, ?_⟩
    rw [hrun, lookups, if_pos hclass]
    refine Native.withLocal_of_holding ?_
    rw [lift_bind_run, Native.hasMethod]
    by_cases hmethod : machine.script.fate (.native (.getObjectClass asked) :: machine.calls)
      (.native (.getMethod method)) = .answer
    · have hresolves : Resolves machine.script machine.calls asked method := ⟨hclass, hmethod⟩
      rw [Native.call_of_answer hmethod, if_pos hresolves]
      rfl
    · have hfails : ¬ Resolves machine.script machine.calls asked method := fun h ↦ hmethod h.2
      rw [Native.call_of_ne_answer hmethod, if_neg hfails]
      exact abandon_run _ hpending

/-! ### Streams -/

/-- Asks a loader for a stream. -/
abbrev streamRequest (loader : Object) (arguments : List Object) : Call :=
  .native (.callMethod loader .getResourceAsStream arguments)

/-- Calls the method that closes a stream. -/
abbrev streamClose (stream : Object) : Call :=
  .native (.callVoidMethod stream .close)

/-- The calls by which a stream is closed, after others. -/
def closing (script : Script) (target : Ref → Option Object) (calls : List Call) (stream : Ref) :
    List Call :=
  (if Resolves script calls (target stream) .close then [streamClose stream.object] else []) ++
    lookups script calls (target stream) .close

/-- A call that neither asks a loader for a stream nor closes one. -/
def Aside : Call → Prop
  | .native (.callMethod _ .getResourceAsStream _) | .native (.callVoidMethod _ .close) => False
  | _ => True

/-- Whether a call closes a stream, whichever it is. -/
def isClose : Call → Bool
  | .native (.callVoidMethod _ .close) => true
  | _ => false

theorem filter_isClose_closing (script : Script) (target : Ref → Option Object)
    (calls : List Call) (stream : Ref) :
    (closing script target calls stream).filter isClose =
      if Resolves script calls (target stream) .close then [streamClose stream.object] else [] := by
  have hlookups : (lookups script calls (target stream) .close).filter isClose = [] := by
    rw [lookups]
    split <;> rfl
  rw [closing, List.filter_append, hlookups]
  split <;> rfl

theorem closeStream_run (stream : Ref) (hpending : machine.pending = false) :
    ∃ number, (closeStream stream).run machine =
      ((), machine.afterCalls
        (closing machine.script machine.target? machine.calls stream) number) := by
  obtain ⟨number, hresolve⟩ := resolve_run stream .close hpending
  rw [closeStream, StateT.run_bind, hresolve, closing]
  refine ⟨number, ?_⟩
  split
  · obtain ⟨pending, hcall⟩ := Native.callVoidMethod_run stream .close
      (machine.afterCalls (lookups machine.script machine.calls (machine.target? stream) .close)
        number)
    change (Native.callVoidMethod stream .close >>= fun _ ↦ Native.takeException >>=
      fun _ ↦ pure () : StateM Machine Unit).run _ = _
    rw [StateT.run_bind, hcall, afterCalls_afterCalls]
    exact congrArg (fun taken : Bool × Machine ↦ ((), taken.2))
      (@Native.takeException_run (machine.afterCalls _ number) pending hpending)
  · rfl

theorem settles_resolve (object : Ref) (method : Method) :
    Settles Aside (resolve object method) := by
  intro machine hpending
  obtain ⟨number, hrun⟩ := resolve_run object method hpending
  refine ⟨_, _, number, hrun, ?_⟩
  rw [lookups]
  split
  · exact List.forall_mem_cons.mpr ⟨trivial, List.forall_mem_singleton.mpr trivial⟩
  · exact List.forall_mem_singleton.mpr trivial

theorem settles_getByteArray (array : Ref) :
    Settles Aside (liftM (Native.getByteArray array) : Reading Bytes) := by
  intro machine _
  obtain ⟨bytes, count, hrun⟩ := Native.getByteArray_run array machine
  refine ⟨.ok bytes, _, machine.nextRef, congrArg (Prod.map Except.ok id) hrun, ?_⟩
  exact List.forall_mem_cons.mpr ⟨trivial, List.forall_mem_singleton.mpr trivial⟩

theorem settles_readStream (stream : Ref) : Settles Aside (readStream stream) := by
  have harray : Acquires Aside (orFail (Native.callMethod stream .readAllBytes [])) :=
    Fetches.orFail fun machine ↦ fetches_callFor trivial _ machine
  exact (settles_resolve stream _).bind fun _ ↦ harray.settles settles_getByteArray

/-- A stream is read by calls that leave it open, and then it is closed. -/
theorem drainStream_run (stream : Ref) (hpending : machine.pending = false) :
    ∃ outcome reading number, (∀ call ∈ reading, Aside call) ∧
      (drainStream stream).run.run machine = (outcome, machine.afterCalls
        (closing machine.script machine.target? (reading ++ machine.calls) stream ++ reading)
          number) := by
  obtain ⟨outcome, reading, number, hread, hreading⟩ := settles_readStream stream machine hpending
  obtain ⟨next, hclosed⟩ :=
    @closeStream_run (machine.afterCalls reading number) stream hpending
  refine ⟨outcome, reading, next, hreading, ?_⟩
  change ((readStream stream).run >>= fun bytes ↦ closeStream stream >>= fun _ ↦ pure bytes :
    StateM Machine (Except Unreadable Bytes)).run machine = _
  rw [StateT.run_bind, hread]
  change (closeStream stream >>= fun _ ↦ pure outcome :
    StateM Machine (Except Unreadable Bytes)).run (machine.afterCalls reading number) = _
  rw [StateT.run_bind, hclosed, afterCalls_afterCalls]
  rfl

/-! ### Asking for a resource -/

/-- How asking a loader for a resource can go, in the calls made after others. -/
inductive Asked (script : Script) (target : Ref → Option Object) (loader : Object)
    (before : List Call) : List Call → Prop
  /-- It does not come to that: something failed before. -/
  | unasked {made : List Call} (hmade : ∀ call ∈ made, Aside call) :
    Asked script target loader before made
  /-- There is no such resource, or the loader fails. -/
  | refused {earlier : List Call} {arguments : List Object}
      (hearlier : ∀ call ∈ earlier, Aside call)
      (hrefused : script.fate (earlier ++ before) (streamRequest loader arguments) = .answer →
        Native.result script loader .getResourceAsStream arguments = none) :
      Asked script target loader before (streamRequest loader arguments :: earlier)
  /-- The loader gives a stream. -/
  | drained {earlier reading : List Call} {arguments : List Object} {stream : Ref}
      (hearlier : ∀ call ∈ earlier, Aside call) (hreading : ∀ call ∈ reading, Aside call)
      (hresult : Native.result script loader .getResourceAsStream arguments =
        some stream.object) :
      Asked script target loader before
        (closing script target (reading ++ streamRequest loader arguments :: (earlier ++ before))
          stream ++ (reading ++ streamRequest loader arguments :: earlier))

theorem Asked.behind {target : Ref → Option Object} {loader : Object}
    {before first made : List Call} (h : Asked script target loader (first ++ before) made)
    (hfirst : ∀ call ∈ first, Aside call) :
    Asked script target loader before (made ++ first) := by
  cases h with
  | unasked hmade => exact .unasked (List.forall_mem_append.mpr ⟨hmade, hfirst⟩)
  | refused hearlier hrefused =>
    rw [← List.append_assoc] at hrefused
    exact .refused (List.forall_mem_append.mpr ⟨hearlier, hfirst⟩) hrefused
  | drained hearlier hreading hresult =>
    have hasked : Asked script target loader before _ :=
      .drained (List.forall_mem_append.mpr ⟨hearlier, hfirst⟩) hreading hresult
    simpa only [List.append_assoc, List.cons_append] using hasked

/-- Since the calls that gave the stream, it was read, and then closed: its close method was called
once if it resolves, and not at all otherwise. No other stream was closed. -/
def ClosedOnce (script : Script) (target : Ref → Option Object) (given : Object)
    (calls later : List Call) : Prop :=
  ∃ stream reading, stream.object = given ∧
    later = closing script target (reading ++ calls) stream ++ reading ∧
    later.filter isClose =
      if Resolves script (reading ++ calls) (target stream) .close then [streamClose given] else []

theorem filter_isClose_of_aside {made : List Call} (h : ∀ call ∈ made, Aside call) :
    made.filter isClose = [] := by
  refine List.filter_eq_nil_iff.mpr fun call hmem hclose ↦ ?_
  have haside := h call hmem
  unfold isClose at hclose
  split at hclose
  · exact haside
  · cases hclose

theorem request_not_mem_of_aside {made : List Call} (h : ∀ call ∈ made, Aside call)
    (loader : Object) (arguments : List Object) : streamRequest loader arguments ∉ made :=
  fun hmem ↦ h _ hmem

theorem request_not_mem_closing (script : Script) (target : Ref → Option Object)
    (calls : List Call) (stream : Ref) (loader : Object) (arguments : List Object) :
    streamRequest loader arguments ∉ closing script target calls stream := by
  rw [closing, lookups]
  split <;> split <;> simp

/-- It is the loader that is asked. A stream that it gave is closed, and there was none before. -/
theorem Asked.closedOnce {target : Ref → Option Object} {loader receiver : Object}
    {before made later earlier : List Call} {arguments : List Object}
    (h : Asked script target loader before made)
    (hmade : made = later ++ streamRequest receiver arguments :: earlier) :
    receiver = loader ∧ ∀ given,
      script.fate (earlier ++ before) (streamRequest receiver arguments) = .answer →
      Native.result script receiver .getResourceAsStream arguments = some given →
        ClosedOnce script target given (streamRequest receiver arguments :: (earlier ++ before))
          later ∧
        earlier.filter isClose = [] := by
  cases h with
  | unasked hmade' =>
    rw [hmade] at hmade'
    exact (hmade' _ (List.mem_append_right _ (List.mem_cons_self ..))).elim
  | @refused earlier' arguments' hearlier hrefused =>
    rw [← List.nil_append (_ :: earlier')] at hmade
    obtain ⟨-, hsame, rfl⟩ := (List.append_cons_inj_of_notMem List.not_mem_nil
      (request_not_mem_of_aside hearlier receiver arguments)).mp hmade
    cases hsame
    refine ⟨rfl, fun given hanswer hgiven ↦ ?_⟩
    cases (hrefused hanswer).symm.trans hgiven
  | @drained earlier' reading arguments' stream hearlier hreading hresult =>
    have hlater (calls : List Call) : streamRequest receiver arguments ∉
        closing script target calls stream ++ reading := by
      rw [List.mem_append, not_or]
      exact ⟨request_not_mem_closing _ _ _ _ _ _, request_not_mem_of_aside hreading _ arguments⟩
    rw [← List.append_assoc] at hmade
    obtain ⟨rfl, hsame, rfl⟩ := (List.append_cons_inj_of_notMem (hlater _)
      (request_not_mem_of_aside hearlier receiver arguments)).mp hmade
    cases hsame
    refine ⟨rfl, fun given _ hgiven ↦ ?_⟩
    obtain rfl : stream.object = given := Option.some.inj (hresult.symm.trans hgiven)
    refine ⟨⟨stream, reading, rfl, rfl, ?_⟩, filter_isClose_of_aside hearlier⟩
    rw [List.filter_append, filter_isClose_closing, filter_isClose_of_aside hreading,
      List.append_nil]

/-- Asking for a stream, with the name at hand. -/
theorem request_run (loader name : Ref) (hpending : machine.pending = false) :
    ∃ outcome made number, Asked machine.script machine.target? loader.object machine.calls made ∧
      (do
        match ← unlessRaised (Native.callMethod loader .getResourceAsStream [name]) with
        | none => return none
        | some stream => Native.withLocal stream (some <$> drainStream stream) :
        Reading (Option Bytes)).run.run machine = (outcome, machine.afterCalls made number) := by
  have hcall : (Native.callMethod loader .getResourceAsStream [name]).run machine =
      (Native.callFor (.callMethod loader.object .getResourceAsStream [name.object])
        (Native.result machine.script loader.object .getResourceAsStream [name.object])).run
          machine := rfl
  obtain ⟨hrefused, pending, hrun, -⟩ | ⟨given, hgiven, -, hrun⟩ :=
    Native.callFor_cases (.callMethod loader.object .getResourceAsStream [name.object])
      (Native.result machine.script loader.object .getResourceAsStream [name.object]) machine
  · obtain ⟨outcome, hended, hnone⟩ := unlessRaised_of_none (hcall.trans hrun) hpending
    have hasked : Asked machine.script machine.target? loader.object machine.calls
        [streamRequest loader.object [name.object]] :=
      .refused (List.forall_mem_nil _) hrefused
    refine ⟨outcome.bind fun _ ↦ .ok none, _, machine.nextRef, hasked, ?_⟩
    rw [edit_bind_run, hended]
    cases outcome with
    | error fault => rfl
    | ok answer =>
      obtain rfl : answer = none := hnone
      rfl
  · have hended := unlessRaised_of_some (hcall.trans hrun) hpending
    obtain ⟨outcome, reading, number, hreading, hdrained⟩ := @drainStream_run
      ((machine.afterCalls [streamRequest loader.object [name.object]]
        (machine.nextRef + 1)).holding ⟨machine.nextRef, given⟩) ⟨machine.nextRef, given⟩ hpending
    have hstream : Native.result machine.script loader.object .getResourceAsStream [name.object] =
        some (Ref.mk machine.nextRef given).object := hgiven
    refine ⟨outcome.map some, _, number, .drained (List.forall_mem_nil _) hreading hstream, ?_⟩
    rw [edit_bind_run, hended]
    refine Native.withLocal_of_holding ?_
    rw [ExceptT.run_map, StateT.run_map, hdrained]
    have hafter (closed : List Call) (request : Call) :
        (machine.afterCalls [request] (machine.nextRef + 1)).afterCalls (closed ++ reading) number =
          machine.afterCalls (closed ++ (reading ++ [request])) number := by
      rw [afterCalls_afterCalls, List.append_assoc]
    exact congrArg (fun after ↦ (outcome.map some, holding after ⟨machine.nextRef, given⟩))
      (hafter _ _)

theorem askLoader_run (loader : Ref) (resource : String) (hpending : machine.pending = false) :
    ∃ outcome made number, Asked machine.script machine.target? loader.object machine.calls made ∧
      (askLoader loader resource).run.run machine = (outcome, machine.afterCalls made number) := by
  obtain ⟨outcome, first, next, hresolve, hfirst⟩ :=
    settles_resolve loader .getResourceAsStream machine hpending
  rw [askLoader, edit_bind_run, hresolve]
  cases outcome with
  | error fault => exact ⟨.error fault, first, next, .unasked hfirst, rfl⟩
  | ok _ =>
    have hstring : Fetches Aside (Native.newString resource) :=
      fetches_ofText (fun _ ↦ trivial) resource
    obtain ⟨second, number, hsecond, hname⟩ :=
      hstring.orAbandon (machine.afterCalls first next) hpending
    have hearlier : ∀ call ∈ second ++ first, Aside call :=
      List.forall_mem_append.mpr ⟨hsecond, hfirst⟩
    dsimp only
    rw [edit_bind_run]
    rcases hname with hname | ⟨name, hname⟩
    · refine ⟨.error ⟨⟩, second ++ first, number, .unasked hearlier, ?_⟩
      rw [hname, afterCalls_afterCalls]
    · obtain ⟨outcome, made, last, hasked, hrun⟩ := @request_run
        (((machine.afterCalls first next).afterCalls second number).holding name) loader name
          hpending
      refine ⟨outcome, made ++ (second ++ first), last, ?_, ?_⟩
      · refine Asked.behind ?_ hearlier
        rw [List.append_assoc]
        exact hasked
      · rw [hname, ← afterCalls_afterCalls, ← afterCalls_afterCalls]
        exact Native.withLocal_of_holding hrun

theorem findResource_run (handle : LoaderHandle) (resource : String)
    (hpending : machine.pending = false) :
    ∃ outcome made number,
      Asked machine.script machine.target? handle.object machine.calls made ∧
        (findResource handle resource).run.run machine =
          (outcome, machine.afterCalls made number) := by
  have hnone : Asked machine.script machine.target? handle.object machine.calls [] :=
    .unasked (List.forall_mem_nil _)
  rw [findResource, lift_bind_run]
  change ∃ outcome made number, _ ∧ ((if !machine.script.attached then _ else _ :
    Reading (Option Bytes)).run.run machine = _)
  split
  · exact ⟨.error ⟨⟩, [], machine.nextRef, hnone, rfl⟩
  · have hget : (Native.newLocalRef handle).run machine =
        (Native.callFor (.newLocalRef (machine.target? handle)) (machine.target? handle)).run
          machine := rfl
    rw [lift_bind_run, hget]
    obtain ⟨-, pending, hrun, hkept⟩ | ⟨given, hgiven, -, hrun⟩ :=
      Native.callFor_cases (.newLocalRef (machine.target? handle)) (machine.target? handle) machine
    · rw [hrun, hkept rfl]
      have hmade : ∀ call ∈ [Call.native (.newLocalRef (machine.target? handle))], Aside call :=
        List.forall_mem_singleton.mpr trivial
      exact ⟨.ok none, _, machine.nextRef, .unasked hmade, rfl⟩
    · obtain rfl : given = handle.object := eq_object_of_target? hgiven
      obtain ⟨outcome, made, number, hasked, hended⟩ := @askLoader_run
        ((machine.afterCalls [.native (.newLocalRef (machine.target? handle))]
          (machine.nextRef + 1)).holding ⟨machine.nextRef, handle.object⟩)
            ⟨machine.nextRef, handle.object⟩ resource hpending
      have hmade : ∀ call ∈ [Call.native (.newLocalRef (machine.target? handle))], Aside call :=
        List.forall_mem_singleton.mpr trivial
      refine ⟨outcome, _, number, Asked.behind hasked hmade, ?_⟩
      rw [hrun, ← afterCalls_afterCalls]
      exact Native.withLocal_of_holding hended

/-! ### The loader that programs are started with -/

/-- A call that makes no weak reference. -/
def Strong : Call → Prop
  | .native (.newWeakGlobalRef _) => False
  | _ => True

/-- Of the calls made after others, the last one was to make a weak reference, which is to leave an
exception. -/
def RaisedLast (script : Script) (before made : List Call) : Prop :=
  ∃ object earlier, made = .native (.newWeakGlobalRef object) :: earlier ∧
    script.fate (earlier ++ before) (.native (.newWeakGlobalRef object)) = .raise

theorem not_raisedLast {before made : List Call} (h : ∀ call ∈ made, Strong call) :
    ¬ RaisedLast script before made := by
  rintro ⟨object, earlier, rfl, -⟩
  exact h _ (List.mem_cons_self ..)

theorem raisedLast_singleton {before : List Call} {object : Option Object} :
    RaisedLast script before [.native (.newWeakGlobalRef object)] ↔
      script.fate before (.native (.newWeakGlobalRef object)) = .raise := by
  constructor
  · rintro ⟨_, _, hmade, hraised⟩
    cases hmade
    exact hraised
  · exact fun h ↦ ⟨object, [], rfl, h⟩

theorem raisedLast_append {before made first : List Call} (h : ∀ call ∈ first, Strong call) :
    RaisedLast script before (made ++ first) ↔ RaisedLast script (first ++ before) made := by
  constructor
  · intro hraised
    cases made with
    | nil => exact absurd hraised (not_raisedLast h)
    | cons call made =>
      obtain ⟨object, earlier, hmade, hraised⟩ := hraised
      obtain ⟨rfl, hearlier⟩ := List.cons.inj hmade
      have hearlier : made ++ first = earlier := hearlier
      rw [← hearlier, List.append_assoc] at hraised
      exact ⟨object, made, rfl, hraised⟩
  · rintro ⟨object, earlier, rfl, hraised⟩
    rw [← List.append_assoc] at hraised
    exact ⟨object, earlier ++ first, rfl, hraised⟩

/-- If the reading begins without an exception, it ends without one, unless making a weak reference
has just left one. Nothing else is left of it but calls and the weak reference that it gave. -/
def Grants (work : Reading Ref) : Prop :=
  ∀ machine, machine.pending = false → ∃ outcome made number pending,
    work.run.run machine = (outcome, { machine.afterCalls made number with
      pending, weaks := outcome.toOption.toList ++ machine.weaks }) ∧
    (pending = true ↔ RaisedLast machine.script machine.calls made)

theorem grants_withLocal {work : Reading Ref} {body : Ref → Reading Ref}
    (h : Acquires Strong work) (hbody : ∀ ref, Grants (body ref)) :
    Grants (work >>= fun ref ↦ Native.withLocal ref (body ref)) := by
  intro machine hpending
  obtain ⟨first, next, hfirst, hrun | ⟨ref, hrun⟩⟩ := h machine hpending
  · refine ⟨.error ⟨⟩, first, next, false, ?_,
      iff_of_false Bool.false_ne_true (not_raisedLast hfirst)⟩
    rw [edit_bind_run, hrun, ← hpending]
    rfl
  · obtain ⟨outcome, made, number, pending, hended, hraised⟩ :=
      hbody ref ((machine.afterCalls first next).holding ref) hpending
    refine ⟨outcome, made ++ first, number, pending, ?_,
      hraised.trans (raisedLast_append hfirst).symm⟩
    rw [edit_bind_run, hrun, ← afterCalls_afterCalls]
    exact Native.withLocal_of_holding hended

theorem grants_newWeakGlobalRef (object : Object) :
    Grants (do
      match ← (Native.newWeakGlobalRef object : StateM Machine _) with
      | some handle => return handle
      | none => throw ⟨⟩) := by
  intro machine hpending
  rw [lift_bind_run, Native.newWeakGlobalRef, StateT.run_bind]
  by_cases hanswer :
    machine.script.fate machine.calls (.native (.newWeakGlobalRef (some object))) = .answer
  · have hkept : ¬ RaisedLast machine.script machine.calls
        [.native (.newWeakGlobalRef (some object))] := by
      rw [raisedLast_singleton, hanswer]
      exact Fate.noConfusion
    refine ⟨.ok ⟨machine.nextRef, object⟩, _, machine.nextRef + 1, false, ?_,
      iff_of_false Bool.false_ne_true hkept⟩
    rw [Native.call_of_answer hanswer, ← hpending]
    rfl
  · refine ⟨.error ⟨⟩, [.native (.newWeakGlobalRef (some object))], machine.nextRef,
      machine.raises (.newWeakGlobalRef (some object)), ?_, ?_⟩
    · rw [Native.call_of_ne_answer hanswer, hpending, Bool.false_or]
      rfl
    · rw [raisedLast_singleton, raises, NativeCall.mayRaise, Bool.and_true, decide_eq_true_iff]

/-- Looking up a method first. -/
theorem Grants.behindLookup {work : Reading Ref} (h : Grants work) (method : Method) :
    Grants (do
      if !(← (Native.hasStaticMethod method : StateM Machine Bool)) then abandon
      work) := by
  intro machine hpending
  rw [lift_bind_run, Native.hasStaticMethod]
  by_cases hanswer :
    machine.script.fate machine.calls (.native (.getStaticMethod method)) = .answer
  · have hfirst : ∀ call ∈ [Call.native (.getStaticMethod method)], Strong call :=
      List.forall_mem_singleton.mpr trivial
    obtain ⟨outcome, made, number, pending, hrun, hraised⟩ :=
      h (machine.afterCalls [.native (.getStaticMethod method)] machine.nextRef) hpending
    refine ⟨outcome, made ++ [.native (.getStaticMethod method)], number, pending, ?_,
      hraised.trans (raisedLast_append hfirst).symm⟩
    rw [Native.call_of_answer hanswer, ← afterCalls_afterCalls]
    exact hrun
  · have hmade : ∀ call ∈ [Call.native (.getStaticMethod method)], Strong call :=
      List.forall_mem_singleton.mpr trivial
    refine ⟨.error ⟨⟩, _, machine.nextRef, false, ?_,
      iff_of_false Bool.false_ne_true (not_raisedLast hmade)⟩
    rw [Native.call_of_ne_answer hanswer]
    have hfailed := @abandon_bind_run _ PUnit
      (machine.afterCalls [.native (.getStaticMethod method)] machine.nextRef) (fun _ ↦ work)
        (machine.pending || machine.raises (.getStaticMethod method)) hpending
    refine hfailed.trans (congrArg (Prod.mk _) ?_)
    rw [← hpending]
    rfl

theorem grants_system : Grants system := by
  have hcls (name : String) : Fetches Strong (Native.findClass name) :=
    fetches_ofText (fun _ ↦ trivial) name
  have hloader : Acquires Strong (orFail (Native.callStaticMethod .getSystemClassLoader)) :=
    Fetches.orFail fun machine ↦ fetches_callFor trivial _ machine
  rw [system]
  exact grants_withLocal (hcls _).orAbandon fun cls ↦ Grants.behindLookup
    (grants_withLocal hloader fun loader ↦ grants_newWeakGlobalRef loader.object) _

/-! ### What asking for loaders leaves -/

/-- Whatever a loader is asked for and however the calls go: if there is no exception, there is none
afterwards, and there are the local references that there were before. A stream that the loader
gives is closed, and its close method is called once, if it resolves. Finding the loader that
programs are started with leaves the local references alone as well, but if its last call was to
make the weak reference, and this leaves an exception, then so does it. -/
theorem balanced_of_asking (hpending : machine.pending = false) :
    (∀ handle resource outcome after,
      (findResource handle resource).run.run machine = (outcome, after) →
        after.pending = false ∧ after.locals = machine.locals ∧
        after = { machine with calls := after.calls, nextRef := after.nextRef } ∧
        ∃ made, after.calls = made ++ machine.calls ∧
          ∀ later earlier receiver arguments,
            made = later ++ streamRequest receiver arguments :: earlier →
            receiver = handle.object ∧ ∀ given,
              machine.script.fate (earlier ++ machine.calls) (streamRequest receiver arguments) =
                .answer →
              Native.result machine.script receiver .getResourceAsStream arguments = some given →
                ClosedOnce machine.script machine.target? given
                  (streamRequest receiver arguments :: (earlier ++ machine.calls)) later ∧
                earlier.filter isClose = []) ∧
    ∀ outcome after, system.run.run machine = (outcome, after) →
      after.locals = machine.locals ∧
      after = { machine with
        calls := after.calls
        nextRef := after.nextRef
        pending := after.pending
        weaks := outcome.toOption.toList ++ machine.weaks } ∧
      ∃ made, after.calls = made ++ machine.calls ∧
        (after.pending = true ↔ RaisedLast machine.script machine.calls made) := by
  constructor
  · intro handle resource outcome after hrun
    obtain ⟨_, made, number, hasked, hended⟩ := findResource_run handle resource hpending
    obtain rfl : machine.afterCalls made number = after :=
      congrArg Prod.snd (hended.symm.trans hrun)
    exact ⟨hpending, rfl, rfl, made, rfl, fun later earlier receiver arguments ↦ hasked.closedOnce⟩
  · intro outcome after hrun
    obtain ⟨_, made, number, pending, hended, hraised⟩ := grants_system machine hpending
    rw [hended] at hrun
    cases hrun
    exact ⟨rfl, rfl, made, rfl, hraised⟩

/-- A machine with one resource, on which streams cannot be read and weak references cannot be made:
either leaves an exception. -/
def strained : Machine :=
  .start {
    loaders := [("app", [("r", [1])])]
    systemLoader := some "app"
    classes := []
    toolStatus := 0
    attached := true
    potential := .none
    missing := []
    errorNames := []
    arrayLength := none
    fate := fun _ call ↦ match call with
      | .native (.callMethod _ .readAllBytes _) | .native (.newWeakGlobalRef _) => .raise
      | _ => .answer }

/-- A loader of the machine. -/
def appLoader : LoaderHandle :=
  ⟨7, .loader "app"⟩

/-- A stream that cannot be read is closed all the same. -/
theorem balanced_of_asking_strained :
    strained.pending = false ∧
    (∃ after later earlier, (findResource appLoader "r").run.run strained = (.error ⟨⟩, after) ∧
      after.pending = false ∧ after.locals = strained.locals ∧
      after.calls = later ++ streamRequest (.loader "app") [.text [0x72]] :: earlier ∧
      ClosedOnce strained.script strained.target? (.stream [1])
        (streamRequest (.loader "app") [.text [0x72]] :: (earlier ++ strained.calls)) later ∧
      later.filter isClose = [streamClose (.stream [1])]) ∧
    ∃ after, system.run.run strained = (.error ⟨⟩, after) ∧ after.locals = strained.locals := by
  obtain ⟨hfind, hsystem⟩ := @balanced_of_asking strained rfl
  obtain ⟨hpending, hlocals, -, made, hcalls, hclosed⟩ := hfind appLoader "r" _ _ rfl
  obtain rfl : _ = made := hcalls.trans (List.append_nil made)
  obtain ⟨hlocalsAfter, -⟩ := hsystem _ _ rfl
  refine ⟨rfl, ⟨_, _, _, rfl, hpending, hlocals, rfl,
    ((hclosed [streamClose (.stream [1]), .native (.getMethod .close),
      .native (.getObjectClass (some (.stream [1]))),
      .native (.callMethod (.stream [1]) .readAllBytes []), .native (.getMethod .readAllBytes),
      .native (.getObjectClass (some (.stream [1])))] _ _ _ rfl).2 _ rfl rfl).1, rfl⟩, _, rfl,
    hlocalsAfter⟩

/-- The exception that making the weak reference leaves stays. -/
theorem not_balanced_strained :
    strained.pending = false ∧ ∃ after, system.run.run strained = (.error ⟨⟩, after) ∧
      after.pending = true :=
  ⟨rfl, _, rfl, rfl⟩

end ClassWeaver.Agent.LoaderHandle
