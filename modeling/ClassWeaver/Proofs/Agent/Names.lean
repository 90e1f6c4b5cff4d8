import ClassWeaver.Agent.Host
import ClassWeaver.Proofs.Text.Utf8
import ClassWeaver.Proofs.Vm.Calls

/-!
How class names pass between an agent and the machine.

The machine spells names in modified UTF-8, and the agent takes them for UTF-8, and so it spells
them in turn. A plain name passes unchanged wherever it does. Any other name is lost: its class is
not offered to transformers, it has another name once it is loaded, and it is asked for under
another name (`crosses_iff_plain`).
-/

set_option autoImplicit false
set_option relaxedAutoImplicit false

namespace ClassWeaver.Agent

open Text Text.Utf8 Vm

variable {α β : Type}

/-! ### Names of classes that are being loaded -/

section Load

variable {text other : String} {loader : Option String} {length : Int}

theorem className?_encode_iff (hlength : 0 ≤ length) :
    (Host.ClassLoad.mk (some (ModifiedUtf8.encode text)) loader (some length)).className? =
      some other ↔ Plain text ∧ other = text := by
  have hread :
      (Host.ClassLoad.mk (some (ModifiedUtf8.encode text)) loader (some length)).className? =
        decode? (untilZero (ModifiedUtf8.encode text)) := if_neg (Int.not_lt.mpr hlength)
  rw [hread, untilZero_encode, decode?_encode_eq_some_iff]

/-- An event that comes to nothing in every agent. -/
theorem handled_run_fst {absent : α} {event : Running → StateM Machine (α × Running)}
    (h : ∀ agent machine, ((event agent).run machine).1.1 = absent) (host : Host) :
    ((Host.handled absent event).run host).1 = absent := by
  change ((if host.registered = some .instrumentation then _ else _ : StateM Host α).run host).1 = _
  split
  · change (Host.withAgent absent event host).1 = absent
    unfold Host.withAgent
    cases host.agent with
    | none => rfl
    | some agent => exact h agent host.machine
  · rfl

theorem className?_of_not_plain (h : ¬ Plain text) (size : Option Int) :
    (Host.ClassLoad.mk (some (ModifiedUtf8.encode text)) loader size).className? = none := by
  cases size with
  | none => rfl
  | some length =>
    rw [Option.eq_none_iff_forall_ne_some]
    intro other hother
    by_cases hlength : 0 ≤ length
    · exact h ((className?_encode_iff hlength).mp hother).1
    · cases (if_pos (Int.not_le.mp hlength)).symm.trans hother

/-- A class whose name is not plain is left as it is, whatever the agent is. -/
theorem offer_of_not_plain (h : ¬ Plain text) (size : Option Int) (host : Host) :
    ((Host.offer ⟨some (ModifiedUtf8.encode text), loader, size⟩).run host).1 = none := by
  simp only [Host.offer, className?_of_not_plain h, StateT.run_bind, StateT.run_get]
  exact handled_run_fst (fun agent machine ↦ rfl) host

end Load

/-! ### Signatures -/

/-- The signature of a class of this name. -/
def signature (name : String) : String :=
  "L" ++ name ++ ";"

theorem ofSignature_signature (name : String) :
    ClassName.ofSignature (signature name) = name := by
  have hchars : (signature name).toList = 'L' :: (name.toList ++ [';']) := by
    rw [signature, String.toList_append, String.toList_append]
    rfl
  rw [ClassName.ofSignature, hchars]
  change (if (name.toList ++ [';']).getLast? = some ';' then
    String.ofList (name.toList ++ [';']).dropLast else _) = name
  rw [if_pos List.getLast?_concat, List.dropLast_concat, String.ofList_toList]

/-- The first and the last character of a signature stand for themselves. -/
theorem decodeLossy_signature (name : String) :
    decodeLossy (ModifiedUtf8.encode (signature name)) =
      signature (decodeLossy (ModifiedUtf8.encode name)) := by
  have hbytes : ModifiedUtf8.encode (signature name) =
      0x4C :: (ModifiedUtf8.encode name ++ [0x3B]) := by
    rw [signature, ModifiedUtf8.encode_append, ModifiedUtf8.encode_append]
    rfl
  have hfirst (rest : Bytes) : pieces (0x4C :: rest) = some 'L' :: pieces rest :=
    pieces_utf8EncodeChar 'L' rest
  have hlast : pieces [0x3B] = [some ';'] := by
    have hread := pieces_utf8EncodeChar ';' []
    rwa [pieces] at hread
  apply String.toList_injective
  rw [hbytes, decodeLossy, hfirst, pieces_append_singleton (by decide), hlast, decodeLossy,
    signature, String.toList_append, String.toList_append]
  simp

/-! ### Names of loaded classes -/

section Loaded

variable {cls : LoadedClass} {machine : Machine} {info : ClassInfo}

/-- The signature is read leniently. -/
theorem getClassSignature_eq_ok {object : Object} {text : String} {after : Machine}
    (hinfo : machine.classInfo? object = some info)
    (h : (Tool.getClassSignature object).run.run machine = (.ok text, after)) :
    text = decodeLossy (untilZero info.signature) := by
  obtain ⟨given, between, hinvoked, h⟩ := edit_bind_eq_ok.mp h
  obtain rfl := invoke_eq_ok hinvoked
  cases given with
  | false => cases h
  | true =>
    obtain ⟨_, _, hgot, h⟩ := edit_bind_eq_ok.mp h
    cases hgot
    have hsame : Machine.classInfo? { machine with
        calls := .tool (.getClassSignature object) :: machine.calls } object = some info := hinfo
    rw [takeText_eq_ok h, hsame]
    rfl

theorem ask_eq_ok {function : ToolFunction} {query : Tool.Query α} {answer : α}
    (h : ((LoadedClass.ask function query).run machine).1 = .ok answer) :
    (query.run.run machine).1 = .ok answer := by
  rw [LoadedClass.ask, StateT.run_bind] at h
  rcases hasked : query.run.run machine with ⟨outcome, after⟩
  rw [hasked] at h
  cases outcome with
  | ok found =>
    cases h
    rfl
  | error code => cases h

theorem name_eq_ok {answer : String} (hinfo : machine.classInfo? cls.object = some info)
    (h : ((LoadedClass.name cls).run machine).1 = .ok answer) :
    answer = ClassName.ofSignature (decodeLossy (untilZero info.signature)) := by
  change ((LoadedClass.ask .getClassSignature
    (Tool.getClassSignature cls.object)).run machine).1.map ClassName.ofSignature = _ at h
  cases hasked : ((LoadedClass.ask .getClassSignature
      (Tool.getClassSignature cls.object)).run machine).1 with
  | error failure =>
    rw [hasked] at h
    cases h
  | ok text =>
    rw [hasked] at h
    cases h
    rw [getClassSignature_eq_ok hinfo (Prod.ext (ask_eq_ok hasked) rfl)]

theorem getClassSignature_of_obliging {object : Object} (hobliging : Obliging machine)
    (hinfo : machine.classInfo? object = some info) :
    (Tool.getClassSignature object).run.run machine =
      (.ok (decodeLossy (untilZero info.signature)),
        { machine with calls := .tool (.getClassSignature object) :: machine.calls }) := by
  have hbetween : Obliging
      { machine with calls := .tool (.getClassSignature object) :: machine.calls } :=
    ⟨hobliging.missing, hobliging.fate⟩
  have hsame : Machine.classInfo?
      { machine with calls := .tool (.getClassSignature object) :: machine.calls } object =
        some info := hinfo
  refine edit_bind_eq_ok.mpr ⟨true, _, invoke_of_obliging hobliging _, ?_⟩
  refine edit_bind_eq_ok.mpr ⟨_, _, rfl, ?_⟩
  rw [hsame]
  exact takeText_of_obliging hbetween info.signature

theorem name_of_obliging (hobliging : Obliging machine)
    (hinfo : machine.classInfo? cls.object = some info) :
    ((LoadedClass.name cls).run machine).1 =
      .ok (ClassName.ofSignature (decodeLossy (untilZero info.signature))) := by
  rw [LoadedClass.name, StateT.run_bind, LoadedClass.ask, StateT.run_bind,
    getClassSignature_of_obliging hobliging hinfo]
  rfl

end Loaded

/-! ### Names of resources -/

section Resources

variable {resource : String}

/-- The only text that is made is this one, in UTF-8. -/
def OnlyText (resource : String) (call : Call) : Prop :=
  ∀ content, call = .native (.newString content) → Native.textBytes? resource = some content

open LoaderHandle Reading

theorem makes_abandon : Makes (OnlyText resource) (abandon : Reading α).run :=
  Makes.bindFailing (makes_takeException.lift) fun _ ↦ makes_pure _

theorem makes_orAbandon {call : StateM Machine (Option α)} (h : Makes (OnlyText resource) call) :
    Makes (OnlyText resource) (orAbandon call).run := by
  refine Makes.bindFailing h.lift fun answer ↦ ?_
  cases answer with
  | none => exact makes_abandon
  | some answer => exact makes_pure _

theorem makes_unlessRaised {call : StateM Machine (Option Ref)}
    (h : Makes (OnlyText resource) call) : Makes (OnlyText resource) (unlessRaised call).run := by
  refine Makes.bindFailing h.lift fun answer ↦
    Makes.bindFailing makes_takeException.lift fun raised ↦ ?_
  cases raised with
  | true => exact makes_pure _
  | false => exact makes_pure _

theorem makes_orFail {call : StateM Machine (Option Ref)} (h : Makes (OnlyText resource) call) :
    Makes (OnlyText resource) (orFail call).run := by
  refine Makes.bindFailing (makes_unlessRaised h) fun answer ↦ ?_
  cases answer with
  | none => exact makes_pure _
  | some answer => exact makes_pure _

theorem makes_resolve (object : Ref) (method : Method) :
    Makes (OnlyText resource) (resolve object method).run := by
  have hcls : Makes (OnlyText resource) (Native.getObjectClass object) :=
    (makes_of_same fun _ ↦ rfl).bind fun machine ↦ makes_callFor nofun _
  refine Makes.bindFailing hcls.lift fun cls ↦ ?_
  cases cls with
  | none => exact makes_pure _
  | some cls =>
    refine makes_withLocal cls (Makes.bindFailing (makes_call nofun).lift fun found ↦ ?_)
    cases found with
    | true => exact makes_pure _
    | false => exact makes_abandon

theorem makes_callMethod (ref : Ref) (method : Method) (arguments : List Ref) :
    Makes (OnlyText resource) (Native.callMethod ref method arguments) :=
  (makes_of_same fun _ ↦ rfl).bind fun _ ↦ makes_callFor nofun _

theorem makes_getByteArray (ref : Ref) : Makes (OnlyText resource) (Native.getByteArray ref) := by
  have hlength : Makes (OnlyText resource) (Native.getArrayLength ref) :=
    (makes_call nofun).bind fun _ ↦ makes_of_same fun _ ↦ rfl
  exact hlength.bind fun length ↦ (makes_call nofun).bind fun _ ↦ makes_pure _

theorem makes_drainStream (stream : Ref) :
    Makes (OnlyText resource) (drainStream stream).run := by
  have hread : Makes (OnlyText resource) (readStream stream).run :=
    Makes.bindFailing (makes_resolve stream _) fun _ ↦
      Makes.bindFailing (makes_orFail (makes_callMethod stream _ _)) fun array ↦
        makes_withLocal array (makes_getByteArray array).lift
  have hclose : Makes (OnlyText resource) (closeStream stream) := by
    refine (makes_resolve stream _).bind fun found ↦ ?_
    cases found with
    | error fault => exact makes_pure _
    | ok _ =>
      exact ((makes_call nofun).bind fun _ ↦ makes_pure _).bind fun _ ↦
        makes_takeException.bind fun _ ↦ makes_pure _
  exact hread.bind fun bytes ↦ hclose.bind fun _ ↦ makes_pure _

/-- Of the texts that are made, only the name of the resource is one. -/
theorem makes_newString : Makes (OnlyText resource) (Native.newString resource) := by
  rw [Native.newString]
  split
  · exact makes_pure _
  · rename_i content hcontent
    refine makes_callFor ?_ _
    rintro _ ⟨⟩
    exact hcontent

theorem makes_findResource (handle : LoaderHandle) :
    Makes (OnlyText resource) (findResource handle resource).run := by
  have hask (loader : Ref) : Makes (OnlyText resource) (askLoader loader resource).run := by
    refine Makes.bindFailing (makes_resolve loader _) fun _ ↦
      Makes.bindFailing (makes_orAbandon makes_newString) fun name ↦ makes_withLocal name ?_
    refine Makes.bindFailing (makes_unlessRaised (makes_callMethod loader _ _)) fun answer ↦ ?_
    cases answer with
    | none => exact makes_pure _
    | some stream =>
      exact makes_withLocal stream
        (Makes.bindFailing (makes_drainStream stream) fun _ ↦ makes_pure _)
  have hlocal : Makes (OnlyText resource) (Native.newLocalRef handle) :=
    (makes_of_same fun _ ↦ rfl).bind fun _ ↦ makes_callFor nofun _
  refine Makes.bindFailing (Makes.lift (makes_of_same fun _ ↦ rfl)) fun attached ↦ ?_
  cases attached with
  | false => exact makes_pure _
  | true =>
    refine Makes.bindFailing hlocal.lift fun loader ↦ ?_
    cases loader with
    | none => exact makes_pure _
    | some loader => exact makes_withLocal loader (hask loader)

/-- The bytes of a text that can be made at all. -/
theorem textBytes?_eq_some_iff {text : String} {content : Bytes} :
    Native.textBytes? text = some content ↔ Char.ofNat 0 ∉ text.toList ∧ content = encode text := by
  rw [Native.textBytes?]
  split
  · rename_i hzero
    exact ⟨nofun, fun h ↦ absurd (List.contains_iff_mem.mp hzero) h.1⟩
  · rename_i hzero
    rw [Option.some_inj, eq_comm]
    exact (and_iff_right fun hmem ↦ hzero (List.contains_iff_mem.mpr hmem)).symm

theorem newString_calls {text : String} (h : Plain text) (machine : Machine) :
    ((Native.newString text).run machine).2.calls =
      .native (.newString (ModifiedUtf8.encode text)) :: machine.calls := by
  have hzero : Char.ofNat 0 ∉ text.toList := fun hmem ↦ absurd (h _ hmem).1 (by decide)
  rw [Native.newString, textBytes?_eq_some_iff.mpr ⟨hzero, rfl⟩, encode_of_plain h]
  exact callFor_calls _ _ machine

end Resources

/-! ### Names on either side -/

/-- A name crosses between the machine and an agent as it is if and only if it is plain. With the
bytes that the machine has for it, a class that is being loaded is offered under its name or not at
all, and a class that is loaded has its name or another one. The bytes that ask for a resource
are those that the machine has for its name, or others. Class files hold every name. -/
theorem crosses_iff_plain (name : String) :
    (∀ loader length other, 0 ≤ length →
      ((Host.ClassLoad.mk (some (ModifiedUtf8.encode name)) loader (some length)).className? =
        some other ↔ Plain name ∧ other = name)) ∧
    (¬ Plain name → ∀ loader size host,
      ((Host.offer ⟨some (ModifiedUtf8.encode name), loader, size⟩).run host).1 = none) ∧
    (∀ machine (cls : LoadedClass) info, machine.classInfo? cls.object = some info →
      info.signature = ModifiedUtf8.encode (signature name) →
        (∀ answer, ((LoadedClass.name cls).run machine).1 = .ok answer →
          (answer = name ↔ Plain name)) ∧
        (Obliging machine → (((LoadedClass.name cls).run machine).1 = .ok name ↔ Plain name))) ∧
    (∀ handle machine, ∃ made,
      ((LoaderHandle.findResource handle name).run.run machine).2.calls = made ++ machine.calls ∧
        ∀ content, .native (.newString content) ∈ made →
          (content = ModifiedUtf8.encode name ↔ Plain name)) ∧
    (Plain name → ∀ machine, ((Native.newString name).run machine).2.calls =
      .native (.newString (ModifiedUtf8.encode name)) :: machine.calls) ∧
    ModifiedUtf8.decode (ModifiedUtf8.encode name) = some name := by
  have hread :
      ClassName.ofSignature (decodeLossy (untilZero (ModifiedUtf8.encode (signature name)))) =
        decodeLossy (ModifiedUtf8.encode name) := by
    rw [untilZero_encode, decodeLossy_signature, ofSignature_signature]
  refine ⟨fun loader length other hlength ↦ className?_encode_iff hlength,
    fun hplain loader size host ↦ offer_of_not_plain hplain size host, ?_, ?_,
    newString_calls, ModifiedUtf8.decode_of_encode name⟩
  · intro machine cls info hinfo hsignature
    constructor
    · intro answer hanswer
      rw [name_eq_ok hinfo hanswer, hsignature, hread]
      exact decodeLossy_encode_iff
    · intro hobliging
      rw [name_of_obliging hobliging hinfo, hsignature, hread, Except.ok.injEq]
      exact decodeLossy_encode_iff
  · intro handle machine
    obtain ⟨made, hcalls, hmade⟩ := @makes_findResource name handle machine
    refine ⟨made, hcalls, fun content hmem ↦ ?_⟩
    obtain ⟨-, rfl⟩ := textBytes?_eq_some_iff.mp (hmade _ hmem content rfl)
    exact encode_eq_iff

section Example

/-- A machine on which everything goes well, with one class. -/
def oneClass (name : String) : Machine :=
  .start {
    loaders := []
    systemLoader := none
    classes := [("C", ⟨ModifiedUtf8.encode (signature name), none, true⟩)]
    toolStatus := 0
    attached := true
    potential := .none
    missing := []
    errorNames := []
    arrayLength := none
    fate := fun _ _ ↦ .answer }

theorem obliging_oneClass (name : String) : Obliging (oneClass name) :=
  ⟨rfl, fun _ _ ↦ rfl⟩

/-- The class of the machine. -/
def onlyClass : LoadedClass :=
  ⟨0, .loadedClass "C"⟩

theorem classInfo?_oneClass (name : String) :
    (oneClass name).classInfo? onlyClass.object =
      some ⟨ModifiedUtf8.encode (signature name), none, true⟩ :=
  rfl

/-- A plain name crosses. -/
theorem crosses_iff_plain_ascii :
    (Host.ClassLoad.mk (some (ModifiedUtf8.encode "p/A")) none (some 0)).className? = some "p/A" ∧
      ((LoadedClass.name onlyClass).run (oneClass "p/A")).1 = .ok "p/A" := by
  have hplain : Plain "p/A" := by
    intro c hmem
    have hc : c = 'p' ∨ c = '/' ∨ c = 'A' := by simpa using hmem
    rcases hc with rfl | rfl | rfl <;> decide
  obtain ⟨hload, -, hloaded, -⟩ := crosses_iff_plain "p/A"
  exact ⟨(hload none 0 "p/A" (Int.le_refl 0)).mpr ⟨hplain, rfl⟩,
    ((hloaded _ _ _ (classInfo?_oneClass "p/A") rfl).2 (obliging_oneClass "p/A")).mpr hplain⟩

/-- A name with a character beyond the first 65536. -/
def smiling : String :=
  String.ofList ['p', '/', Char.ofNat 0x1F600]

theorem not_plain_smiling : ¬ Plain smiling := by
  intro h
  have hlast : Char.ofNat 0x1F600 ∈ smiling.toList := by
    rw [smiling, String.toList_ofList]
    decide
  exact absurd (h _ hlast).2 (by decide)

/-- The class is not offered when it is loaded, and has another name then, though its class file
holds its name. -/
theorem not_crosses_smiling :
    (Host.ClassLoad.mk (some (ModifiedUtf8.encode smiling)) none (some 0)).className? = none ∧
      ((LoadedClass.name onlyClass).run (oneClass smiling)).1 ≠ .ok smiling ∧
      ModifiedUtf8.decode (ModifiedUtf8.encode smiling) = some smiling := by
  refine ⟨className?_of_not_plain not_plain_smiling _, fun hname ↦ ?_,
    ModifiedUtf8.decode_of_encode smiling⟩
  have hread := name_eq_ok (classInfo?_oneClass smiling) hname
  rw [untilZero_encode, decodeLossy_signature, ofSignature_signature] at hread
  exact not_plain_smiling (decodeLossy_encode_iff.mp hread.symm)

end Example

end ClassWeaver.Agent
