import ClassWeaver.Proofs.Code.Sessions
import ClassWeaver.Proofs.Transformer.Brackets

/-!
What a factory does to the body of a method.

Its changes amount to a series of edits: both instructions of every allocation become a `nop`, and
every constructor call becomes a call of the factory (`Replaces`). The constant pool only grows.
-/

set_option autoImplicit false
set_option relaxedAutoImplicit false

namespace ClassWeaver

open ClassFile Code

namespace Factory

/-! ### The edits of a factory -/

/-- Edits that replace constructions by calls of the factory. -/
inductive Rewrites (factory : Factory) (pool : ConstantPool) (found : List Construction) :
    Edit → Prop
  | allocation {construction : Construction} (hfound : construction ∈ found) :
      Rewrites factory pool found (.replace construction.allocation [.plain .nop])
  | copy {construction : Construction} (hfound : construction ∈ found) :
      Rewrites factory pool found (.replace (construction.allocation + 1) [.plain .nop])
  | call {construction : Construction} {index : UInt16} {descriptor : String}
      (hfound : construction ∈ found)
      (hdescriptor : factoryDescriptor factory.product construction.descriptor = .ok descriptor)
      (hmember : pool.memberRef index = .ok ⟨factory.owner, factory.method, descriptor⟩) :
      Rewrites factory pool found
        (.replace construction.call [.withConstant .invokestatic index])

/-- All constructions are replaced and nothing else is changed, in a larger pool. -/
structure Replaces (factory : Factory) (found : List Construction) (pool larger : ConstantPool)
    (history : List Edit) : Prop where
  indexed : larger.Indexed
  extending : larger.Extends pool
  rewrites : ∀ edit ∈ history, Rewrites factory larger found edit
  covers : ∀ construction ∈ found, ∀ index ∈ [construction.allocation,
    construction.allocation + 1, construction.call], ∃ edit ∈ history, edit.index = index

variable {factory : Factory} {found : List Construction} {editor edited : Editor}
  {pool larger largest : ConstantPool} {construction : Construction} {history later : List Edit}

theorem Rewrites.mono {more : List Construction} {edit : Edit} (hlarger : larger.Extends pool)
    (hmore : found ⊆ more) (h : Rewrites factory pool found edit) :
    Rewrites factory larger more edit := by
  cases h with
  | allocation hfound => exact .allocation (hmore hfound)
  | copy hfound => exact .copy (hmore hfound)
  | call hfound hdescriptor hmember =>
    exact .call (hmore hfound) hdescriptor
      (ConstantPool.lasting_memberRef _ _ _ _ hlarger hmember)

theorem replaces_nil (hindexed : pool.Indexed) : Replaces factory [] pool pool [] :=
  ⟨hindexed, .refl _, nofun, nofun⟩

theorem Replaces.cons (hfirst : Replaces factory [construction] pool larger history)
    (hlater : Replaces factory found larger largest later) :
    Replaces factory (construction :: found) pool largest (history ++ later) where
  indexed := hlater.indexed
  extending := hlater.extending.trans hfirst.extending
  rewrites := by
    intro edit hedit
    rcases List.mem_append.mp hedit with hmem | hmem
    · exact (hfirst.rewrites edit hmem).mono hlater.extending (by simp)
    · exact (hlater.rewrites edit hmem).mono (.refl _) (by simp)
  covers := by
    intro other hother index hindex
    rcases List.mem_cons.mp hother with rfl | hmem
    · obtain ⟨edit, hedit, hsame⟩ := hfirst.covers other (List.mem_singleton_self _) index hindex
      exact ⟨edit, List.mem_append_left _ hedit, hsame⟩
    · obtain ⟨edit, hedit, hsame⟩ := hlater.covers other hmem index hindex
      exact ⟨edit, List.mem_append_right _ hedit, hsame⟩

/-- The edits that replace one construction by a call of the method at a pool index. -/
def replacement (construction : Construction) (index : UInt16) : List Edit :=
  [.replace construction.allocation [.plain .nop],
    .replace (construction.allocation + 1) [.plain .nop],
    .replace construction.call [.withConstant .invokestatic index]]

theorem replaceConstruction_eq_ok (hindexed : editor.pool.Indexed)
    (h : (factory.replaceConstruction construction).run.run editor = (.ok (), edited)) :
    ∃ pool history, edited = { editor.replay history with pool } ∧
      Replaces factory [construction] editor.pool pool history ∧
        history.map Edit.index = construction.indices := by
  rw [replaceConstruction] at h
  split at h
  · cases h
  · rename_i descriptor hdescriptor
    obtain ⟨index, extended, hextended, h⟩ := edit_bind_eq_ok.mp h
    obtain ⟨pool, hpool, rfl⟩ := BodyEdit.extendPool_eq_ok hextended
    obtain ⟨hindexed, hextending, hmember⟩ := ConstantPool.added_addMethodRef hindexed hpool
    have hself : construction ∈ [construction] := List.mem_singleton_self _
    cases h
    refine ⟨pool, replacement construction index,
      editor.replay_withPool (replacement construction index) pool,
      ⟨hindexed, hextending, ?_, ?_⟩, rfl⟩
    · simp only [replacement, List.forall_mem_cons]
      exact ⟨.allocation hself, .copy hself, .call hself hdescriptor hmember, nofun⟩
    · simp [replacement, Edit.index]

theorem forM_replaceConstruction_eq_ok (hindexed : editor.pool.Indexed)
    (h : (found.forM factory.replaceConstruction).run.run editor = (.ok (), edited)) :
    ∃ pool history, edited = { editor.replay history with pool } ∧
      Replaces factory found editor.pool pool history ∧
        history.map Edit.index = found.flatMap Construction.indices := by
  induction found generalizing editor with
  | nil =>
    cases h
    exact ⟨_, [], rfl, replaces_nil hindexed, rfl⟩
  | cons construction rest ih =>
    obtain ⟨_, between, hfirst, h⟩ := edit_bind_eq_ok.mp h
    obtain ⟨pool, history, rfl, hhistory, hindices⟩ := replaceConstruction_eq_ok hindexed hfirst
    obtain ⟨larger, later, hedited, hlater, hrest⟩ := ih hhistory.indexed h
    refine ⟨larger, history ++ later, ?_, hhistory.cons hlater, ?_⟩
    · rw [hedited, Editor.replay_withPool, Editor.replay_append]
    · rw [List.map_append, hindices, hrest, List.flatMap_cons]

/-- The edits of a body are those of the constructions that were found, in their order. -/
theorem edits_of_editBody (hindexed : editor.pool.Indexed)
    (h : factory.editBody.run.run editor = (.ok (), edited)) :
    ∃ found pool history,
      pair editor.pool factory.product [] editor.instructions.toList.zipIdx = .ok found ∧
        edited = { editor.replay history with pool } ∧
          Replaces factory found editor.pool pool history ∧
            history.map Edit.index = found.flatMap Construction.indices := by
  obtain ⟨_, before, hstarted, h⟩ := edit_bind_eq_ok.mp h
  cases hstarted
  split at h
  · cases h
  · rename_i found hfound
    obtain ⟨pool, history, hedited, hreplaces, hindices⟩ :=
      forM_replaceConstruction_eq_ok hindexed h
    exact ⟨found, pool, history, hfound, hedited, hreplaces, hindices⟩

theorem editBody_eq_ok (hindexed : editor.pool.Indexed)
    (h : factory.editBody.run.run editor = (.ok (), edited)) :
    ∃ found pool history,
      pair editor.pool factory.product [] editor.instructions.toList.zipIdx = .ok found ∧
        edited = { editor.replay history with pool } ∧
          Replaces factory found editor.pool pool history := by
  obtain ⟨found, pool, history, hfound, hedited, hreplaces, -⟩ := edits_of_editBody hindexed h
  exact ⟨found, pool, history, hfound, hedited, hreplaces⟩

/-! ### Edits that succeed -/

/-- The pool has room for the methods of the factory that the constructions need, one after the
other, and these are the edits that then replace the constructions. -/
inductive Provides (factory : Factory) :
    ConstantPool → List Construction → List Edit → ConstantPool → Prop
  | nil (pool : ConstantPool) : Provides factory pool [] [] pool
  | cons {pool larger largest : ConstantPool} {construction : Construction}
      {found : List Construction} {descriptor : String} {index : UInt16} {history : List Edit}
      (hdescriptor : factoryDescriptor factory.product construction.descriptor = .ok descriptor)
      (hadded : (ConstantPool.addMethodRef ⟨factory.owner, factory.method, descriptor⟩).run.run
        pool = (.ok index, larger))
      (hrest : Provides factory larger found history largest) :
      Provides factory pool (construction :: found) (replacement construction index ++ history)
        largest

theorem replaceConstruction_run {descriptor : String} {index : UInt16}
    (hdescriptor : factoryDescriptor factory.product construction.descriptor = .ok descriptor)
    (hadded : (ConstantPool.addMethodRef ⟨factory.owner, factory.method, descriptor⟩).run.run
      editor.pool = (.ok index, larger)) :
    (factory.replaceConstruction construction).run.run editor =
      (.ok (), { editor.replay (replacement construction index) with pool := larger }) := by
  have hextended : (BodyEdit.extendPool (ConstantPool.addMethodRef
      ⟨factory.owner, factory.method, descriptor⟩) : BodyEdit Id UInt16).run.run editor =
        (.ok index, { editor with pool := larger }) := BodyEdit.extendPool_run hadded
  rw [replaceConstruction, hdescriptor, ← Editor.replay_withPool]
  exact edit_bind_eq_ok.mpr ⟨index, _, hextended, rfl⟩

theorem forM_replaceConstruction_run (h : Provides factory editor.pool found history larger) :
    (found.forM factory.replaceConstruction).run.run editor =
      (.ok (), { editor.replay history with pool := larger }) := by
  generalize hpool : editor.pool = pool at h
  induction h generalizing editor with
  | nil =>
    subst hpool
    rfl
  | cons hdescriptor hadded _ ih =>
    subst hpool
    refine edit_bind_eq_ok.mpr ⟨(), _, replaceConstruction_run hdescriptor hadded, ?_⟩
    rw [ih rfl, Editor.replay_withPool, ← Editor.replay_append]

/-- What becomes of a body if there is room for everything. -/
theorem editBody_of_provides
    (hfound : pair editor.pool factory.product [] editor.instructions.toList.zipIdx = .ok found)
    (h : Provides factory editor.pool found history larger) :
    factory.editBody.run.run editor =
      (.ok (), { editor.replay history with pool := larger }) := by
  refine edit_bind_eq_ok.mpr ⟨editor, editor, rfl, ?_⟩
  rw [hfound]
  exact forM_replaceConstruction_run h

end Factory

end ClassWeaver
