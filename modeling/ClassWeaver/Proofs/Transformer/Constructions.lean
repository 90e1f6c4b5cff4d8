import ClassWeaver.Proofs.Descriptor.Grammar
import ClassWeaver.Proofs.Transformer.Depths
import ClassWeaver.Proofs.Transformer.Selecting

/-!
What a factory makes of a class.

In the body of a method it pairs every allocation of the product with a constructor call, edits no
instruction twice, and leaves no allocation behind (`Converts`). It goes through the methods one
after another, while the constant pool grows (`Progress`). Either all of them are converted in the
end, or the class is as it was before (`converted_of_weave`).
-/

set_option autoImplicit false
set_option relaxedAutoImplicit false

namespace ClassWeaver.Factory

open ClassFile Code

variable {factory : Factory} {base pool larger : ConstantPool} {product : String}
  {instruction : Instruction} {original revised : List Instruction} {found : List Construction}

/-! ### Pool indices that resolve -/

/-- The pool tells what an instruction allocates, and what it calls. -/
structure Resolves (pool : ConstantPool) (instruction : Instruction) : Prop where
  allocation : instruction.opcode = .new → ∀ index, instruction.poolIndex? = some index →
    ∃ name, pool.className index = .ok name
  call : instruction.opcode = .invokespecial → ∀ index, instruction.poolIndex? = some index →
    ∃ member, pool.memberRef index = .ok member

def Resolvable (pool : ConstantPool) (instructions : List Instruction) : Prop :=
  ∀ instruction ∈ instructions, Resolves pool instruction

theorem lasting_allocates (product : String) (instruction : Instruction) :
    ConstantPool.Lasting fun pool ↦ allocates pool product instruction := by
  unfold allocates
  split
  · split
    · exact (ConstantPool.lasting_className _).bind fun _ ↦ ConstantPool.lasting_const _
    · exact ConstantPool.lasting_const _
  · exact ConstantPool.lasting_const _

theorem lasting_constructs? (product : String) (instruction : Instruction) :
    ConstantPool.Lasting fun pool ↦ constructs? pool product instruction := by
  unfold constructs?
  split
  · split
    · refine (ConstantPool.lasting_memberRef _).bind fun member ↦ ?_
      split <;> exact ConstantPool.lasting_const _
    · exact ConstantPool.lasting_const _
  · exact ConstantPool.lasting_const _

namespace Resolves

variable (h : Resolves pool instruction)

include h

theorem exists_allocates (product : String) :
    ∃ answer, allocates pool product instruction = .ok answer := by
  unfold allocates
  split
  · rename_i hopcode
    split
    · rename_i index hindex
      obtain ⟨name, hname⟩ := h.allocation hopcode index hindex
      exact ⟨_, except_bind_eq_ok.mpr ⟨name, hname, rfl⟩⟩
    · exact ⟨_, rfl⟩
  · exact ⟨_, rfl⟩

theorem exists_constructs? (product : String) :
    ∃ answer, constructs? pool product instruction = .ok answer := by
  unfold constructs?
  split
  · rename_i hopcode
    split
    · rename_i index hindex
      obtain ⟨member, hmember⟩ := h.call hopcode index hindex
      rw [hmember]
      by_cases hnames : member.owner = product ∧ member.name = "<init>"
      · exact ⟨_, if_pos hnames⟩
      · exact ⟨_, if_neg hnames⟩
    · exact ⟨_, rfl⟩
  · exact ⟨_, rfl⟩

theorem allocates_of_extends (hlarger : larger.Extends pool) :
    allocates larger product instruction = allocates pool product instruction := by
  obtain ⟨answer, hanswer⟩ := h.exists_allocates product
  exact (lasting_allocates product instruction _ _ _ hlarger hanswer).trans hanswer.symm

theorem constructs?_of_extends (hlarger : larger.Extends pool) :
    constructs? larger product instruction = constructs? pool product instruction := by
  obtain ⟨answer, hanswer⟩ := h.exists_constructs? product
  exact (lasting_constructs? product instruction _ _ _ hlarger hanswer).trans hanswer.symm

end Resolves

/-- What was added to the pool makes no difference to a scan. -/
theorem Scanned.of_extends {opened : List Allocation} {start : Nat}
    (hresolvable : Resolvable pool original) (hlarger : larger.Extends pool)
    (h : Scanned larger product original opened start found) :
    Scanned pool product original opened start found := by
  have hresolves {index : Nat} {instruction : Instruction}
      (hhere : original[index]? = some instruction) : Resolves pool instruction :=
    hresolvable instruction (List.mem_of_getElem? hhere)
  induction h with
  | stop hstop => exact .stop hstop
  | opening hhere hallocates hnext hcopy _ ih =>
    rw [(hresolves hhere).allocates_of_extends hlarger] at hallocates
    exact .opening hhere hallocates hnext hcopy ih
  | passing hhere hallocates hother _ ih =>
    rw [(hresolves hhere).allocates_of_extends hlarger] at hallocates
    rw [(hresolves hhere).constructs?_of_extends hlarger] at hother
    exact .passing hhere hallocates hother ih
  | completing hhere hallocates hcalled _ ih =>
    rw [(hresolves hhere).allocates_of_extends hlarger] at hallocates
    rw [(hresolves hhere).constructs?_of_extends hlarger] at hcalled
    exact .completing hhere hallocates hcalled ih

/-! ### What stands in the place of an instruction -/

/-- What stands in the place of an instruction when the constructions have become calls of the
factory, which take the arguments of the constructor and return a product. -/
inductive Stands (factory : Factory) (pool : ConstantPool) (found : List Construction) (index : Nat)
    (old : Instruction) : Instruction → Prop
  | allocation {construction : Construction} (hfound : construction ∈ found)
      (hindex : construction.allocation = index) :
      Stands factory pool found index old (.plain .nop)
  | copy {construction : Construction} (hfound : construction ∈ found)
      (hindex : construction.allocation + 1 = index) :
      Stands factory pool found index old (.plain .nop)
  | call {construction : Construction} {place : UInt16} {parameters : List String} {result : String}
      (hfound : construction ∈ found) (hindex : construction.call = index)
      (hsplit : Descriptor.split construction.descriptor = some (parameters, result))
      (hmember : pool.memberRef place = .ok ⟨factory.owner, factory.method,
        Descriptor.join parameters ("L" ++ factory.product ++ ";")⟩) :
      Stands factory pool found index old (.withConstant .invokestatic place)
  | kept (hnone : ∀ construction ∈ found, index ∉ construction.indices) :
      Stands factory pool found index old old

theorem factoryDescriptor_eq_ok {descriptor text : String}
    (h : factoryDescriptor product descriptor = .ok text) :
    ∃ parameters result, Descriptor.split descriptor = some (parameters, result) ∧
      text = Descriptor.join parameters ("L" ++ product ++ ";") := by
  rw [factoryDescriptor] at h
  split at h
  · rename_i parameters result hsplit
    exact ⟨parameters, result, hsplit, (Except.ok.inj h).symm⟩
  · cases h

section Stands

variable {history : List Edit} {index : Nat} {old new : Instruction}

theorem Stands.mono (hlarger : larger.Extends pool)
    (h : Stands factory pool found index old new) :
    Stands factory larger found index old new := by
  cases h with
  | allocation hfound hindex => exact .allocation hfound hindex
  | copy hfound hindex => exact .copy hfound hindex
  | call hfound hindex hsplit hmember =>
    exact .call hfound hindex hsplit (ConstantPool.lasting_memberRef _ _ _ _ hlarger hmember)
  | kept hnone => exact .kept hnone

theorem Rewrites.stands
    (h : Rewrites factory pool found (.replace index [new])) :
    Stands factory pool found index old new := by
  cases h with
  | allocation hfound => exact .allocation hfound rfl
  | copy hfound => exact .copy hfound rfl
  | call hfound hdescriptor hmember =>
    obtain ⟨parameters, result, hsplit, rfl⟩ := factoryDescriptor_eq_ok hdescriptor
    exact .call hfound rfl hsplit hmember

theorem Replaces.stands (h : Replaces factory found pool larger history) :
    Stands factory larger found index old (substitute history index old) := by
  obtain ⟨-, hedit | ⟨hnone, hkept⟩⟩ := h.oneForOne.standing_cases index old
  · exact (h.rewrites _ hedit).stands
  · rw [hkept]
    refine .kept fun construction hfound hindex ↦ ?_
    obtain ⟨edit, hedit, hsame⟩ := h.covers construction hfound index hindex
    exact hnone edit hedit hsame

theorem Replaces.straight (h : Replaces factory found pool larger history) :
    ∀ edit ∈ history, ∀ instruction ∈ edit.code, instruction.Straight := by
  intro edit hedit instruction hinstruction
  obtain ⟨hwell, htargets⟩ := h.plain edit hedit instruction hinstruction
  refine ⟨hwell, htargets, ?_⟩
  cases h.rewrites edit hedit with
  | allocation | copy =>
    rw [List.mem_singleton.mp hinstruction]
    decide
  | call =>
    rw [List.mem_singleton.mp hinstruction]
    exact show Opcode.invokestatic ≠ .ldc by decide

/-- If no allocation is left open, what stands in the place of an instruction allocates no
product. -/
theorem Stands.allocates_eq_false (h : Stands factory larger found index old new)
    (hpaired : Paired pool factory.product original found) (hold : original[index]? = some old)
    (hresolves : Resolves pool old) (hlarger : larger.Extends pool) :
    allocates larger factory.product new = .ok false := by
  cases h with
  | allocation | copy => rfl
  | call => rfl
  | kept hnone =>
    obtain ⟨answer, hanswer⟩ := hresolves.exists_allocates factory.product
    rw [hresolves.allocates_of_extends hlarger, hanswer]
    cases answer with
    | false => rfl
    | true =>
      obtain ⟨construction, hfound, rfl⟩ := hpaired.closed index ⟨old, hold, hanswer⟩
      exact absurd (List.mem_cons_self ..) (hnone construction hfound)

end Stands

/-! ### Bodies -/

/-- What a factory records for a body: edits of the instructions of all constructions. -/
structure Recorded (factory : Factory) (pool larger : ConstantPool) (original : List Instruction)
    (found : List Construction) (history : List Edit) : Prop where
  paired : Paired pool factory.product original found
  edits : history.map Edit.index = found.flatMap Construction.indices
  /-- No instruction is edited twice. -/
  once : (history.map Edit.index).Nodup
  stands : ∀ index old, Stands factory larger found index old (substitute history index old)

/-- A body to which the edits of a factory were applied. -/
structure Remade (factory : Factory) (larger : ConstantPool) (history : List Edit)
    (original revised : List Instruction) (old new : MethodBody) : Prop where
  expands : Expands (fun index old ↦ [substitute history index old]) original revised old new
  /-- No allocation of the product is left. -/
  gone : ∀ instruction ∈ revised, allocates larger factory.product instruction = .ok false

section Bodies

variable {history : List Edit} {body : MethodBody} {editor edited : Editor}

theorem recorded_of_editBody (hindexed : pool.Indexed) (hextends : pool.Extends base)
    (hdecode : decode body.code = .ok original) (hresolvable : Resolvable base original)
    (heditor : Editor.ofBody pool body = .ok editor)
    (hedited : factory.editBody.run.run editor = (.ok (), edited)) :
    ∃ found history larger, edited = { editor.replay history with pool := larger } ∧
      Replaces factory found pool larger history ∧
        Recorded factory base larger original found history := by
  obtain rfl := Editor.pool_of_ofBody heditor
  obtain rfl := Except.ok.inj (hdecode.symm.trans (Editor.ofBody_eq_ok heditor).1)
  obtain ⟨found, larger, history, hfound, hsame, hreplaces, hindices⟩ :=
    edits_of_editBody hindexed hedited
  have hscanned : Scanned editor.pool factory.product editor.instructions.toList [] 0 found :=
    scanned_of_pair hfound
  have hpaired := paired_of_scanned (hscanned.of_extends hresolvable hextends)
  exact ⟨found, history, larger, hsame, hreplaces, hpaired, hindices, hindices ▸ hpaired.distinct,
    fun _ _ ↦ hreplaces.stands⟩

theorem Recorded.mono (h : Recorded factory base pool original found history)
    (hlarger : larger.Extends pool) : Recorded factory base larger original found history where
  paired := h.paired
  edits := h.edits
  once := h.once
  stands index old := (h.stands index old).mono hlarger

/-- Where jumps lead makes no difference to what an instruction allocates. -/
theorem allocates_of_matches {expand : Nat → Instruction → List Instruction}
    {before after : Instruction} (h : Matches expand original revised before after) :
    allocates pool product after = allocates pool product before := by
  obtain ⟨hopcode, destination, -, hoperand⟩ := h
  have hindex : after.poolIndex? = before.poolIndex? := by
    rw [← poolIndex?_retarget before destination, ← hoperand]
    rfl
  rw [allocates, allocates, hopcode, hindex]

theorem Recorded.gone (h : Recorded factory pool larger original found history)
    (hresolvable : Resolvable pool original) (hlarger : larger.Extends pool)
    (hexpanded : Expanded (fun index old ↦ [substitute history index old]) original revised) :
    ∀ instruction ∈ revised, allocates larger factory.product instruction = .ok false := by
  intro after hafter
  obtain ⟨place, hplace⟩ := List.mem_iff_getElem?.mp hafter
  obtain ⟨index, old, offset, before, hold, hbefore, -, hmatches⟩ := hexpanded.exists_before hplace
  obtain rfl := List.mem_singleton.mp (List.mem_of_getElem? hbefore)
  rw [allocates_of_matches hmatches]
  exact (h.stands index old).allocates_eq_false h.paired hold
    (hresolvable old (List.mem_of_getElem? hold)) hlarger

theorem Recorded.remade (h : Recorded factory base larger original found history)
    (hresolvable : Resolvable base original) (hdecode : decode body.code = .ok original)
    (heditor : Editor.ofBody pool body = .ok editor)
    (hreplaces : Replaces factory found pool larger history) (hextends : pool.Extends base)
    (hedited : edited = { editor.replay history with pool := larger })
    (hmodified : edited.isModified = true) (happlied : (edited.apply body).failure = none) :
    ∃ revised, Remade factory larger history original revised body (edited.apply body).value := by
  obtain ⟨revised, hexpands⟩ := expands_of_straight hdecode heditor hreplaces.straight
    (fun index old _ ↦ (hreplaces.oneForOne.standing_cases index old).1)
    (show edited = (editor.replay history).withRoom larger _ from hedited) hmodified happlied
  exact ⟨revised, hexpands,
    h.gone hresolvable (hreplaces.extending.trans hextends) hexpands.instructions⟩

/-- Without any edit there is nothing that is allocated. -/
theorem Recorded.not_allocatesAt
    (h : Recorded factory pool larger editor.instructions.toList found history)
    (hmodified : (editor.replay history).isModified = false) (index : Nat) :
    ¬ AllocatesAt pool factory.product editor.instructions.toList index := by
  rintro ⟨old, hold, hallocates⟩
  have hopcode := opcode_of_allocates hallocates
  have hsame : substitute history index old = old := by
    rw [substitute, standing_of_unmodified hmodified (by rwa [← Array.getElem?_toList])]
    rfl
  have hstands := h.stands index old
  rw [hsame] at hstands
  cases hstands with
  | allocation | copy => exact absurd hopcode (by decide)
  | call => exact absurd hopcode (show Opcode.invokestatic ≠ .new by decide)
  | kept hnone =>
    obtain ⟨construction, hfound, rfl⟩ := h.paired.closed index ⟨old, hold, hallocates⟩
    exact hnone construction hfound (List.mem_cons_self ..)

end Bodies

/-! ### Methods -/

/-- What becomes of a method: if it allocates products, every construction becomes a call of the
factory, and all other instructions stay as they are, but for where jumps lead. -/
inductive Converts (factory : Factory) (pool larger : ConstantPool) : Member → Member → Prop
  | bodiless {method : Member} (hbody : method.body? = none) :
      Converts factory pool larger method method
  | kept {method : Member} {body : MethodBody} {original : List Instruction}
      (hbody : method.body? = some body) (hdecode : decode body.code = .ok original)
      (hnone : ∀ index, ¬ AllocatesAt pool factory.product original index) :
      Converts factory pool larger method method
  | replaced {method : Member} {body new : MethodBody} {original revised : List Instruction}
      {found : List Construction} {history : List Edit}
      (hbody : method.body? = some body) (hdecode : decode body.code = .ok original)
      (hrecorded : Recorded factory pool larger original found history)
      (hremade : Remade factory larger history original revised body new) :
      Converts factory pool larger method (method.setBody new)

section Methods

variable {cls between after : EditableClass} {answer first second : Bool} {index : Nat}
  {indices : List Nat} {method new : Member}

theorem Converts.mono (hlarger : larger.Extends pool) (h : Converts factory base pool method new) :
    Converts factory base larger method new := by
  cases h with
  | bodiless hbody => exact .bodiless hbody
  | kept hbody hdecode hnone => exact .kept hbody hdecode hnone
  | replaced hbody hdecode hrecorded hremade =>
    exact .replaced hbody hdecode (hrecorded.mono hlarger) ⟨hremade.expands, fun instruction hmem ↦
      lasting_allocates _ _ _ _ _ hlarger (hremade.gone instruction hmem)⟩

def BodyResolvable (pool : ConstantPool) (method : Member) : Prop :=
  ∀ body original, method.body? = some body → decode body.code = .ok original →
    Resolvable pool original

/-- How far the edits of a class have come: the methods with the given numbers are converted, and
nothing else has changed but that the pool has grown. -/
structure Progress (factory : Factory) (base : ConstantPool) (indices : List Nat)
    (before after : EditableClass) (changed : Bool) : Prop where
  indexed : after.file.pool.Indexed
  extending : after.file.pool.Extends before.file.pool
  rest : after.file =
    { before.file with pool := after.file.pool, methods := after.file.methods }
  length : after.file.methods.length = before.file.methods.length
  converted : ∀ index ∈ indices, ∃ method new, before.file.methods[index]? = some method ∧
    after.file.methods[index]? = some new ∧ Converts factory base after.file.pool method new
  others : ∀ index, index ∉ indices → after.file.methods[index]? = before.file.methods[index]?
  unchanged : changed = false →
    after.file.methods = before.file.methods ∧ after.modified = before.modified
  marked : changed = true → after.modified = true

theorem progress_nil (hindexed : cls.file.pool.Indexed) :
    Progress factory base [] cls cls false where
  indexed := hindexed
  extending := .refl _
  rest := rfl
  length := rfl
  converted := nofun
  others _ _ := rfl
  unchanged _ := ⟨rfl, rfl⟩
  marked := nofun

theorem Progress.cons (hfirst : Progress factory base [index] cls between first)
    (hrest : Progress factory base indices between after second) (hindex : index ∉ indices) :
    Progress factory base (index :: indices) cls after (first || second) where
  indexed := hrest.indexed
  extending := hrest.extending.trans hfirst.extending
  rest := hrest.rest.trans (by rw [hfirst.rest])
  length := hrest.length.trans hfirst.length
  converted := by
    refine List.forall_mem_cons.mpr ⟨?_, fun other hother ↦ ?_⟩
    · obtain ⟨method, new, hmethod, hnew, hconverts⟩ :=
        hfirst.converted index (List.mem_singleton_self _)
      exact ⟨method, new, hmethod, (hrest.others index hindex).trans hnew,
        hconverts.mono hrest.extending⟩
    · obtain ⟨method, new, hmethod, hnew, hconverts⟩ := hrest.converted other hother
      refine ⟨method, new, ?_, hnew, hconverts⟩
      rw [← hmethod, hfirst.others other]
      rintro hsame
      exact hindex (List.mem_singleton.mp hsame ▸ hother)
  others other hother := by
    rw [List.mem_cons, not_or] at hother
    exact (hrest.others other hother.2).trans
      (hfirst.others other fun hsame ↦ hother.1 (List.mem_singleton.mp hsame))
  unchanged hnone := by
    obtain ⟨hnoneFirst, hnoneRest⟩ := Bool.or_eq_false_iff.mp hnone
    obtain ⟨hmethods, hmodified⟩ := hfirst.unchanged hnoneFirst
    obtain ⟨hmethodsRest, hmodifiedRest⟩ := hrest.unchanged hnoneRest
    exact ⟨hmethodsRest.trans hmethods, hmodifiedRest.trans hmodified⟩
  marked hsome := by
    cases second with
    | true => exact hrest.marked rfl
    | false =>
      rw [Bool.or_false] at hsome
      exact (hrest.unchanged rfl).2.trans (hfirst.marked hsome)

/-- What editing one method comes to. -/
theorem progress_of_methodEdited (hindexed : cls.file.pool.Indexed)
    (hextends : cls.file.pool.Extends base)
    (hresolvable : ∀ method, cls.file.methods[index]? = some method → BodyResolvable base method)
    (h : MethodEdited index (fun _ ↦ factory.editBody) cls answer after) :
    Progress factory base [index] cls after answer := by
  cases h with
  | @bodiless method hmethod hbody =>
    exact {
      indexed := hindexed
      extending := .refl _
      rest := rfl
      length := rfl
      converted := List.forall_mem_singleton.mpr ⟨method, method, hmethod, hmethod, .bodiless hbody⟩
      others := fun _ _ ↦ rfl
      unchanged := fun _ ↦ ⟨rfl, rfl⟩
      marked := nofun }
  | @unmodified method body editor later hmethod hbody heditor hrun hmodified =>
    have hdecode := (Editor.ofBody_eq_ok heditor).1
    obtain ⟨found, history, larger, rfl, hreplaces, hrecorded⟩ := recorded_of_editBody hindexed
      hextends hdecode (hresolvable method hmethod body _ hbody hdecode) heditor hrun
    exact {
      indexed := hreplaces.indexed
      extending := hreplaces.extending
      rest := rfl
      length := rfl
      converted := List.forall_mem_singleton.mpr ⟨method, method, hmethod, hmethod,
        .kept hbody hdecode (hrecorded.not_allocatesAt hmodified)⟩
      others := fun _ _ ↦ rfl
      unchanged := fun _ ↦ ⟨rfl, rfl⟩
      marked := nofun }
  | @modified method body editor later hmethod hbody heditor hrun hmodified happlied =>
    have hdecode := (Editor.ofBody_eq_ok heditor).1
    have hresolves := hresolvable method hmethod body _ hbody hdecode
    obtain ⟨found, history, larger, hlater, hreplaces, hrecorded⟩ :=
      recorded_of_editBody hindexed hextends hdecode hresolves heditor hrun
    obtain ⟨revised, hremade⟩ := hrecorded.remade hresolves hdecode heditor hreplaces hextends
      hlater hmodified happlied
    obtain rfl : later.pool = larger := congrArg Editor.pool hlater
    exact {
      indexed := hreplaces.indexed
      extending := hreplaces.extending
      rest := rfl
      length := List.length_modify ..
      converted := by
        refine List.forall_mem_singleton.mpr ⟨method, _, hmethod, ?_,
          .replaced hbody hdecode hrecorded hremade⟩
        refine (List.getElem?_modify_eq _ _ _).trans ?_
        rw [hmethod]
        rfl
      others := fun other hother ↦
        List.getElem?_modify_ne _ _ fun hsame ↦ hother (List.mem_singleton.mpr hsame.symm)
      unchanged := nofun
      marked := fun _ ↦ rfl }

theorem progress_of_editMethods (hnodup : indices.Nodup) (hindexed : cls.file.pool.Indexed)
    (hextends : cls.file.pool.Extends base)
    (hresolvable : ∀ index ∈ indices, ∀ method, cls.file.methods[index]? = some method →
      BodyResolvable base method)
    (h : (factory.editMethods indices).run.run cls = (.ok answer, after)) :
    Progress factory base indices cls after answer := by
  induction indices generalizing cls answer with
  | nil =>
    cases h
    exact progress_nil hindexed
  | cons index rest ih =>
    obtain ⟨hindex, hrest⟩ := List.nodup_cons.mp hnodup
    obtain ⟨hhere, hlater⟩ := List.forall_mem_cons.mp hresolvable
    obtain ⟨first, between, hedited, h⟩ := edit_bind_eq_ok.mp h
    obtain ⟨second, last, hedits, h⟩ := edit_bind_eq_ok.mp h
    cases h
    have hfirst :=
      progress_of_methodEdited hindexed hextends hhere (editMethod_eq_ok_iff.mp hedited).2
    refine hfirst.cons (ih hrest hfirst.indexed (hfirst.extending.trans hextends) ?_ hedits) hindex
    intro other hother method hmethod
    refine hlater other hother method ?_
    rw [← hmethod, hfirst.others other]
    intro hsame
    exact hindex (List.mem_singleton.mp hsame ▸ hother)

/-! ### Classes -/

theorem progress_of_editClass (hindexed : cls.file.pool.Indexed)
    (hresolvable : ∀ method ∈ cls.file.methods, BodyResolvable cls.file.pool method)
    (h : factory.editClass.run.run cls = (.ok answer, after)) :
    Progress factory cls.file.pool (List.range cls.file.methods.length) cls after answer := by
  obtain ⟨_, _, hcurrent, hedits⟩ := edit_bind_eq_ok.mp h
  cases hcurrent
  exact progress_of_editMethods List.nodup_range hindexed (.refl _)
    (fun index _ method hmember ↦ hresolvable method (List.mem_of_getElem? hmember)) hedits

theorem Progress.forall₂
    (h : Progress factory base (List.range cls.file.methods.length) cls after answer) :
    List.Forall₂ (Converts factory base after.file.pool) cls.file.methods after.file.methods := by
  refine List.forall₂_iff_get.mpr ⟨h.length.symm, fun index hbefore hafter ↦ ?_⟩
  obtain ⟨method, new, hmethod, hnew, hconverts⟩ := h.converted index (List.mem_range.mpr hbefore)
  obtain ⟨_, rfl⟩ := List.getElem?_eq_some_iff.mp hmethod
  obtain ⟨_, rfl⟩ := List.getElem?_eq_some_iff.mp hnew
  exact hconverts

/-- What becomes of a class: all methods are converted, in a larger pool, and the answer tells
whether that changed any of them. -/
structure Converted (factory : Factory) (before after : EditableClass) (answer : Option Bytes) :
    Prop where
  methods : List.Forall₂ (Converts factory before.file.pool after.file.pool) before.file.methods
    after.file.methods
  extending : after.file.pool.Extends before.file.pool
  rest : after.file =
    { before.file with pool := after.file.pool, methods := after.file.methods }
  unchanged : answer = none →
    after.file.methods = before.file.methods ∧ after.modified = before.modified
  written : ∀ bytes, answer = some bytes → bytes = after.file.bytes

/-- If editing a body succeeds, every allocation of the product has been paired with a constructor
call, as brackets are paired, and there is one edit of each of the instructions that make up the
constructions. With the edits applied, constructions have become calls of the factory, no allocation
of the product is left, and nothing else has changed. A transformer does that to all methods of a
class that it does not skip, or it fails and changes nothing. -/
theorem converted_of_weave {Loader : Type} {outcome : Except Failure (Option Bytes)}
    (hindexed : cls.file.pool.Indexed)
    (hresolvable : ∀ method ∈ cls.file.methods, BodyResolvable cls.file.pool method)
    (hrun : (factory.transformer : Transformer Loader).weave.run.run cls = (outcome, after)) :
    (∀ method ∈ cls.file.methods, ∀ body original pool editor edited, method.body? = some body →
      decode body.code = .ok original → pool.Indexed → pool.Extends cls.file.pool →
      Editor.ofBody pool body = .ok editor → factory.editBody.run.run editor = (.ok (), edited) →
        ∃ found history larger, edited = { editor.replay history with pool := larger } ∧
          Recorded factory cls.file.pool larger original found history ∧
          (edited.isModified = true → (edited.apply body).failure = none → ∃ revised,
            Remade factory larger history original revised body (edited.apply body).value)) ∧
    (∀ failure, outcome = .error failure → after.file = cls.file ∧ after.modified = cls.modified) ∧
    ∀ answer, outcome = .ok answer → Converted factory cls after answer ∨
      cls.frozen = true ∧ factory.policy = .skip ∧ answer = none ∧ after = cls := by
  refine ⟨?_, ?_⟩
  · intro method hmethod body original pool editor edited hbody hdecode hpool hextends heditor
      hedited
    have hresolves := hresolvable method hmethod body original hbody hdecode
    obtain ⟨found, history, larger, hsame, hreplaces, hrecorded⟩ :=
      recorded_of_editBody hpool hextends hdecode hresolves heditor hedited
    exact ⟨found, history, larger, hsame, hrecorded,
      hrecorded.remade hresolves hdecode heditor hreplaces hextends hsame⟩
  change (editUnlessFrozen factory.policy factory.editClass).run.run cls = (outcome, after) at hrun
  rw [editUnlessFrozen_run] at hrun
  split at hrun
  · rename_i hskipped
    obtain ⟨hfrozen, hskip⟩ := Bool.and_eq_true_iff.mp hskipped
    cases hrun
    exact ⟨nofun, fun answer hanswer ↦
      .inr ⟨hfrozen, eq_of_beq hskip, (Except.ok.inj hanswer).symm, rfl⟩⟩
  · rcases hran : factory.editClass.run.run cls.defrost with ⟨result, between⟩
    rw [hran] at hrun
    cases result with
    | error failure =>
      cases hrun
      exact ⟨fun _ _ ↦ ⟨rfl, rfl⟩, nofun⟩
    | ok changed =>
      have hall := progress_of_editClass (show cls.defrost.file.pool.Indexed from hindexed)
        hresolvable hran
      have hmethods := hall.forall₂
      refine ⟨?_, fun answer hanswer ↦ .inl ?_⟩
      · cases changed <;> (cases hrun; nofun)
      cases changed with
      | false =>
        cases hrun
        cases hanswer
        exact ⟨hmethods, hall.extending, hall.rest, fun _ ↦ hall.unchanged rfl, nofun⟩
      | true =>
        cases hrun
        cases hanswer
        refine ⟨hmethods, hall.extending, hall.rest, nofun, ?_⟩
        rintro _ ⟨⟩
        exact if_pos (hall.marked rfl)

end Methods

/-! ### One construction inside another -/

/-- A `p/T` is constructed from another `p/T`. -/
def nesting : MethodBody :=
  ⟨4, 0, [0xbb, 0, 2, 0x59, 0xbb, 0, 2, 0x59, 0xb7, 0, 6, 0xb7, 0, 13, 0x57, 0xb1], [], []⟩

/-- A class with a method of that body. -/
def building : ClassFile where
  minor := 0
  major := 52
  pool := ⟨#[none, some (.utf8 "p/T"), some (.classRef 1), some (.utf8 "<init>"),
    some (.utf8 "()V"), some (.nameAndType 3 4), some (.methodRef 2 5), some (.utf8 "p/A"),
    some (.classRef 7), some (.utf8 "Code"), some (.utf8 "make"), some (.utf8 "(Lp/T;)V"),
    some (.nameAndType 3 11), some (.methodRef 2 12)]⟩
  access := 0
  thisClass := 8
  superClass := 0
  interfaces := []
  fields := []
  methods := [⟨0, 10, 4, [⟨9, .code nesting⟩]⟩]
  attributes := []

def buildingClass : EditableClass :=
  ⟨"p/A", building, building.bytes, false, false⟩

def buildingEditor : Editor :=
  ⟨building.pool, #[⟨.new, .constant 2, some 0⟩, ⟨.dup, .none, some 3⟩,
    ⟨.new, .constant 2, some 4⟩, ⟨.dup, .none, some 7⟩, ⟨.invokespecial, .constant 6, some 8⟩,
    ⟨.invokespecial, .constant 13, some 11⟩, ⟨.pop, .none, some 14⟩, ⟨0xb1, .none, some 15⟩],
    ∅, ∅, 0⟩

/-- The inner construction is completed first. -/
theorem pair_building :
    pair building.pool "p/T" [] buildingEditor.instructions.toList.zipIdx =
      .ok [⟨2, 4, "()V"⟩, ⟨0, 5, "(Lp/T;)V"⟩] :=
  rfl

theorem factoryDescriptor_itself :
    factoryDescriptor "p/T" "(Lp/T;)V" = .ok "(Lp/T;)Lp/T;" := by
  have hparameter : Descriptor.Parameter "Lp/T;".toList :=
    .ofClass (show ';' ∉ "p/T".toList by decide)
  have hwritten : Descriptor.Written "(Lp/T;)V" ["Lp/T;"] "V" :=
    ⟨rfl, by decide, List.forall_mem_singleton.mpr ⟨hparameter, by decide⟩⟩
  rw [factoryDescriptor, Descriptor.split_eq_some_iff_written.mpr hwritten]
  rfl

/-- Both constructions replaced by calls of the methods at two pool indices. -/
def buildingEdits (inner outer : UInt16) : List Edit :=
  replacement ⟨2, 4, "()V"⟩ inner ++ (replacement ⟨0, 5, "(Lp/T;)V"⟩ outer ++ [])

def buildingEdited (inner outer : UInt16) (pool : ConstantPool) : Editor :=
  { buildingEditor.replay (buildingEdits inner outer) with pool }

/-- There is room for both methods. -/
theorem exists_provides_building :
    ∃ inner outer larger, Provides sample building.pool [⟨2, 4, "()V"⟩, ⟨0, 5, "(Lp/T;)V"⟩]
      (buildingEdits inner outer) larger := by
  obtain ⟨inner, between, hinner, hroom⟩ := ConstantPool.exists_addMethodRef
    ⟨"p/F", "m", "()Lp/T;"⟩ 6 (show building.pool.slots.size + 6 + 6 ≤ _ by decide)
  obtain ⟨outer, larger, houter, -⟩ := ConstantPool.exists_addMethodRef
    ⟨"p/F", "m", "(Lp/T;)Lp/T;"⟩ 0 hroom
  exact ⟨inner, outer, larger, .cons factoryDescriptor_unit hinner
    (.cons factoryDescriptor_itself houter (.nil larger))⟩

theorem edited_buildingEdited (inner outer : UInt16) (pool : ConstantPool) :
    (buildingEdited inner outer pool).edited = [⟨.nop, .none, some 0⟩, ⟨.nop, .none, some 3⟩,
      ⟨.nop, .none, some 4⟩, ⟨.nop, .none, some 7⟩, ⟨.invokestatic, .constant inner, some 8⟩,
      ⟨.invokestatic, .constant outer, some 11⟩, ⟨.pop, .none, some 14⟩,
      ⟨0xb1, .none, some 15⟩] :=
  rfl

theorem apply_buildingEdited (inner outer : UInt16) (pool : ConstantPool) :
    ((buildingEdited inner outer pool).apply nesting).failure = none := by
  refine apply_failure_of_plain rfl rfl rfl ?_ ?_
  · simp only [edited_buildingEdited, List.forall_mem_cons]
    exact ⟨rfl, rfl, rfl, rfl, rfl, rfl, rfl, rfl, nofun⟩
  · rw [edited_buildingEdited]
    exact show 12 ≤ maxCodeLength by decide

theorem weave_building :
    ∃ bytes after edited, (sample.transformer : Transformer Unit).weave.run.run buildingClass =
        (.ok (some bytes), after) ∧
      sample.editBody.run.run buildingEditor = (.ok (), edited) ∧ edited.isModified = true ∧
      (edited.apply nesting).failure = none := by
  obtain ⟨inner, outer, larger, hprovides⟩ := exists_provides_building
  have hmethod : building.methods[0]? = some ⟨0, 10, 4, [⟨9, .code nesting⟩]⟩ := rfl
  have heditor : Editor.ofBody building.pool nesting = .ok buildingEditor := rfl
  have hedited : sample.editBody.run.run buildingEditor =
      (.ok (), buildingEdited inner outer larger) := editBody_of_provides pair_building hprovides
  have happlied := apply_buildingEdited inner outer larger
  have hfirst : (ClassEdit.editMethod 0 fun _ ↦ sample.editBody).run.run buildingClass.defrost =
      (.ok true, _) :=
    editMethod_eq_ok_iff.mpr ⟨rfl, .modified hmethod rfl heditor hedited rfl happlied⟩
  have hedit : sample.editClass.run.run buildingClass.defrost = (.ok true, _) :=
    edit_bind_eq_ok.mpr ⟨buildingClass.defrost, _, rfl, edit_bind_eq_ok.mpr ⟨true, _, hfirst,
      edit_bind_eq_ok.mpr ⟨false, _, rfl, rfl⟩⟩⟩
  have hweave := editUnlessFrozen_run .skip sample.editClass buildingClass
  rw [hedit] at hweave
  exact ⟨_, _, _, hweave, hedited, rfl, happlied⟩

theorem bodyResolvable_building :
    ∀ method ∈ building.methods, BodyResolvable building.pool method := by
  refine List.forall_mem_singleton.mpr fun body original hbody hdecode ↦ ?_
  cases hbody
  obtain rfl := Except.ok.inj
    (show Except.ok buildingEditor.instructions.toList = Except.ok original from hdecode)
  have hplain {opcode : Opcode} (hnew : opcode ≠ .new) (hcall : opcode ≠ .invokespecial)
      (origin : Option Nat) : Resolves building.pool ⟨opcode, .none, origin⟩ :=
    ⟨fun hopcode ↦ absurd hopcode hnew, fun hopcode ↦ absurd hopcode hcall⟩
  have hnew (origin : Option Nat) : Resolves building.pool ⟨.new, .constant 2, origin⟩ := by
    refine ⟨?_, nofun⟩
    rintro - _ ⟨⟩
    exact ⟨"p/T", rfl⟩
  have hcall {index : UInt16} {member : MemberRef} (origin : Option Nat)
      (hmember : building.pool.memberRef index = .ok member) :
      Resolves building.pool ⟨.invokespecial, .constant index, origin⟩ := by
    refine ⟨nofun, ?_⟩
    rintro - _ ⟨⟩
    exact ⟨member, hmember⟩
  simp only [Resolvable, buildingEditor, List.forall_mem_cons]
  exact ⟨hnew _, hplain (by decide) (by decide) _, hnew _, hplain (by decide) (by decide) _,
    hcall _ rfl, hcall _ rfl, hplain (by decide) (by decide) _, hplain (by decide) (by decide) _,
    nofun⟩

/-- The inner one of two constructions is paired with the first constructor call and the outer one
with the second, and both become calls of the factory. -/
theorem converted_of_weave_building :
    ∃ bytes after edited found history larger revised, buildingClass.file.pool.Indexed ∧
      (∀ method ∈ buildingClass.file.methods, BodyResolvable buildingClass.file.pool method) ∧
      (sample.transformer : Transformer Unit).weave.run.run buildingClass =
        (.ok (some bytes), after) ∧
      sample.editBody.run.run buildingEditor = (.ok (), edited) ∧
      Recorded sample building.pool larger buildingEditor.instructions.toList found history ∧
      (∀ construction, construction ∈ found ↔
        construction ∈ [(⟨2, 4, "()V"⟩ : Construction), ⟨0, 5, "(Lp/T;)V"⟩]) ∧
      Remade sample larger history buildingEditor.instructions.toList revised nesting
        (edited.apply nesting).value ∧
      Converted sample buildingClass after (some bytes) := by
  have hindexed : buildingClass.file.pool.Indexed := ⟨rfl, by decide⟩
  obtain ⟨bytes, after, edited, hrun, hedited, hmodified, happlied⟩ := weave_building
  obtain ⟨hbodies, -, hconverted⟩ := converted_of_weave hindexed bodyResolvable_building hrun
  obtain ⟨found, history, larger, -, hrecorded, hremade⟩ := hbodies _ (List.mem_singleton_self _)
    nesting _ building.pool buildingEditor edited rfl rfl hindexed (.refl _) rfl hedited
  obtain ⟨revised, hremade⟩ := hremade hmodified happlied
  have hpaired := paired_of_scanned (scanned_of_pair pair_building)
  refine ⟨bytes, after, edited, found, history, larger, revised, hindexed, bodyResolvable_building,
    hrun, hedited, hrecorded, hrecorded.paired.unique hpaired, hremade, ?_⟩
  rcases hconverted (some bytes) rfl with hdone | ⟨hfrozen, -⟩
  · exact hdone
  · cases hfrozen

end ClassWeaver.Factory
