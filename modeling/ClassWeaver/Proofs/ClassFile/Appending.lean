import ClassWeaver.Proofs.ClassFile.ReadBack

/-!
Where additions to a constant pool leave their entries, and what their indices lead to.

New entries stand behind the old ones, and an entry that is there is never added again, whether the
addition succeeds or runs out of room half way (`Appended`). It runs out of room only when every
slot is taken. If it succeeds, its index leads to what was added (`Addition.Resolves`), and the same
addition gives the same index, and adds nothing, in every pool that grows out of this one
(`Interns`). All of this holds of any pool that comes of a new or a parsed one (`extend_appended`).
-/

set_option autoImplicit false
set_option relaxedAutoImplicit false

namespace ClassWeaver.ClassFile.ConstantPool

variable {α β : Type} {pool before middle after larger : ConstantPool} {entry : Constant}
  {index : UInt16}

/-! ### Entries behind a pool -/

/-- The later pool is the earlier one with entries behind it, none of which was there before. -/
structure Appended (before after : ConstantPool) : Prop where
  framed : after.Framed
  fresh : ∃ entries : List Constant,
    after.slots.toList = before.slots.toList ++ entries.flatMap Constant.slots ∧
      entries.Nodup ∧ ∀ entry ∈ entries, some entry ∉ before.slots.toList

theorem Appended.refl (h : pool.Framed) : Appended pool pool :=
  ⟨h, [], by simp, List.nodup_nil, nofun⟩

theorem some_mem_slots (entry : Constant) : some entry ∈ entry.slots := by
  rw [Constant.slots]
  split <;> exact List.mem_cons_self

theorem Appended.trans (hfirst : Appended before middle) (hsecond : Appended middle after) :
    Appended before after := by
  obtain ⟨early, hearly, hearlyOnce, hearlyNew⟩ := hfirst.fresh
  obtain ⟨late, hlate, hlateOnce, hlateNew⟩ := hsecond.fresh
  have hkept {slot : Option Constant} (hmem : slot ∈ before.slots.toList) :
      slot ∈ middle.slots.toList :=
    hearly ▸ List.mem_append_left _ hmem
  have hput {entry : Constant} (hmem : entry ∈ early) : some entry ∈ middle.slots.toList :=
    hearly ▸ List.mem_append_right _ (List.mem_flatMap.mpr ⟨entry, hmem, some_mem_slots entry⟩)
  refine ⟨hsecond.framed, early ++ late, ?_, ?_, ?_⟩
  · rw [hlate, hearly, List.flatMap_append, List.append_assoc]
  · rw [List.nodup_append]
    exact ⟨hearlyOnce, hlateOnce, fun first hfirst second hsecond heq ↦
      hlateNew second hsecond (heq ▸ hput hfirst)⟩
  · exact List.forall_mem_append.mpr ⟨hearlyNew, fun entry hmem hold ↦
      hlateNew entry hmem (hkept hold)⟩

/-- Slots that were there are as they were. -/
theorem Appended.getElem?_eq (h : Appended before after) {slot : Nat}
    (hslot : slot < before.slots.size) : after.slots[slot]? = before.slots[slot]? := by
  obtain ⟨entries, hslots, -⟩ := h.fresh
  rw [← Array.getElem?_toList, hslots, List.getElem?_append_left (by simpa using hslot),
    Array.getElem?_toList]

theorem Appended.entryAt_eq (h : Appended before after) (hindex : index.toNat < before.slots.size) :
    after.entryAt index = before.entryAt index := by
  rw [entryAt, entryAt, h.getElem?_eq hindex]

/-- An entry that is found is found in the same place later. -/
theorem Appended.find?_eq_some (h : Appended before after)
    (hfound : before.find? entry = some index) :
    after.find? entry = some index := by
  obtain ⟨slot, hslot, rfl⟩ := Option.map_eq_some_iff.mp hfound
  obtain ⟨hlt, hentry, hearlier⟩ := Array.findIdx?_eq_some_iff_getElem.mp hslot
  have hsame {place : Nat} (hplace : place < before.slots.size)
      (hlater : place < after.slots.size) :
      after.slots[place] = before.slots[place] := by
    have heq := h.getElem?_eq hplace
    rwa [Array.getElem?_eq_getElem hlater, Array.getElem?_eq_getElem hplace, Option.some_inj] at heq
  have hlater : slot < after.slots.size := by
    have heq := h.getElem?_eq hlt
    rw [Array.getElem?_eq_getElem hlt] at heq
    exact (Array.getElem?_eq_some_iff.mp heq).1
  refine Option.map_eq_some_iff.mpr ⟨slot, Array.findIdx?_eq_some_iff_getElem.mpr
    ⟨hlater, by rwa [hsame hlt hlater], fun place hplace ↦ ?_⟩, rfl⟩
  rw [hsame (Nat.lt_trans hplace hlt) (Nat.lt_trans hplace hlater)]
  exact hearlier place hplace

theorem not_mem_of_find?_eq_none (h : pool.find? entry = none) :
    some entry ∉ pool.slots.toList := by
  rw [find?, Option.map_eq_none_iff, Array.findIdx?_eq_none_iff] at h
  intro hmem
  have hne := h _ (Array.mem_toList_iff.mp hmem)
  exact absurd hne (by simp)

theorem appended_push (hpool : pool.Framed) (hnew : pool.find? entry = none)
    (hroom : pool.slots.size + entry.slots.length ≤ capacity) :
    Appended pool (pool.push entry) := by
  refine ⟨hpool.push hroom, [entry], ?_, List.pairwise_singleton _ entry, ?_⟩
  · rw [toList_push, List.flatMap_singleton]
  · exact List.forall_mem_singleton.mpr (not_mem_of_find?_eq_none hnew)

/-! ### Edits that intern -/

/-- The edit puts entries behind a pool. It fails only when every slot is taken; otherwise it gives
an answer, which it gives again in every pool that grows out of this one, and adds nothing. -/
structure Interns (edit : Edit α) : Prop where
  appended : ∀ pool : ConstantPool, pool.Framed → Appended pool (edit.run.run pool).2
  full : ∀ pool : ConstantPool, pool.Framed → ∀ fault, (edit.run.run pool).1 = .error fault →
    fault = .poolOverflow ∧ (edit.run.run pool).2.slots.size = capacity
  again : ∀ pool : ConstantPool, pool.Framed → ∀ answer, (edit.run.run pool).1 = .ok answer →
    ∀ larger, Appended (edit.run.run pool).2 larger → edit.run.run larger = (.ok answer, larger)

/-- An entry is found, or there is no room for it, or it goes behind the others. -/
theorem intern_cases (entry : Constant) (pool : ConstantPool) :
    (∃ found, pool.find? entry = some found ∧
      (intern entry).run.run pool = (.ok found, pool)) ∨
    (capacity < pool.slots.size + entry.slots.length ∧
      (intern entry).run.run pool = (.error .poolOverflow, pool)) ∨
    (pool.find? entry = none ∧ pool.slots.size + entry.slots.length ≤ capacity ∧
      (intern entry).run.run pool = (.ok (UInt16.ofNat pool.slots.size), pool.push entry)) := by
  rw [intern_run]
  cases hfound : pool.find? entry with
  | some found => exact .inl ⟨found, rfl, rfl⟩
  | none =>
    by_cases hroom : capacity < pool.slots.size + entry.slots.length
    · exact .inr (.inl ⟨hroom, if_pos hroom⟩)
    · exact .inr (.inr ⟨rfl, Nat.le_of_not_lt hroom, if_neg hroom⟩)

theorem intern_of_find?_eq_some {found : UInt16} (h : pool.find? entry = some found) :
    (intern entry).run.run pool = (.ok found, pool) := by
  rw [intern_run, h]

theorem interns_intern (hnarrow : entry.isWide = false) : Interns (intern entry) where
  appended pool hpool := by
    obtain ⟨found, -, hrun⟩ | ⟨-, hrun⟩ | ⟨hnew, hroom, hrun⟩ := intern_cases entry pool
    · rw [hrun]
      exact .refl hpool
    · rw [hrun]
      exact .refl hpool
    · rw [hrun]
      exact appended_push hpool hnew hroom
  full pool hpool fault hfault := by
    obtain ⟨found, -, hrun⟩ | ⟨hroom, hrun⟩ | ⟨-, -, hrun⟩ := intern_cases entry pool
    · rw [hrun] at hfault
      cases hfault
    · rw [hrun] at hfault ⊢
      rw [Constant.slots, hnarrow, if_neg Bool.false_ne_true] at hroom
      exact ⟨(Except.error.inj hfault).symm,
        Nat.le_antisymm hpool.size_le (Nat.le_of_lt_succ hroom)⟩
    · rw [hrun] at hfault
      cases hfault
  again pool hpool answer hanswer larger hlarger := by
    obtain ⟨found, hfound, hrun⟩ | ⟨-, hrun⟩ | ⟨hnew, -, hrun⟩ := intern_cases entry pool
    · rw [hrun] at hanswer hlarger
      cases hanswer
      exact intern_of_find?_eq_some (hlarger.find?_eq_some hfound)
    · rw [hrun] at hanswer
      cases hanswer
    · rw [hrun] at hanswer hlarger
      cases hanswer
      exact intern_of_find?_eq_some (hlarger.find?_eq_some (find?_push hnew))

theorem Interns.bind {first : Edit α} {next : α → Edit β} (hfirst : Interns first)
    (hnext : ∀ answer, Interns (next answer)) : Interns (first >>= next) where
  appended pool hpool := by
    have hbetween := hfirst.appended pool hpool
    rw [edit_bind_run]
    rcases hended : first.run.run pool with ⟨outcome, between⟩
    rw [hended] at hbetween
    cases outcome with
    | error fault => exact hbetween
    | ok answer => exact hbetween.trans ((hnext answer).appended between hbetween.framed)
  full pool hpool fault := by
    have hbetween := hfirst.appended pool hpool
    have hfull := hfirst.full pool hpool
    rw [edit_bind_run]
    rcases hended : first.run.run pool with ⟨outcome, between⟩
    rw [hended] at hbetween hfull
    cases outcome with
    | error cause =>
      rintro ⟨⟩
      exact hfull fault rfl
    | ok answer => exact (hnext answer).full between hbetween.framed fault
  again pool hpool answer := by
    have hbetween := hfirst.appended pool hpool
    have hagain := hfirst.again pool hpool
    rw [edit_bind_run]
    rcases hended : first.run.run pool with ⟨outcome, between⟩
    rw [hended] at hbetween hagain
    cases outcome with
    | error fault => exact nofun
    | ok value =>
      intro hanswer larger hlarger
      have hrest := (hnext value).appended between hbetween.framed
      rw [edit_bind_run, hagain value rfl larger (hrest.trans hlarger)]
      exact (hnext value).again between hbetween.framed answer hanswer larger hlarger

theorem interns_addText (text : String) : Interns (addText text) :=
  interns_intern rfl

theorem interns_addClass (name : String) : Interns (addClass name) :=
  (interns_addText name).bind fun _ ↦ interns_intern rfl

theorem interns_addNameAndType (name descriptor : String) :
    Interns (addNameAndType name descriptor) :=
  (interns_addText name).bind fun _ ↦ (interns_addText descriptor).bind fun _ ↦ interns_intern rfl

/-- A member of either kind is interned by way of its class and its name and type. -/
theorem interns_member (member : MemberRef) {wrap : UInt16 → UInt16 → Constant}
    (hnarrow : ∀ owner pair, (wrap owner pair).isWide = false) :
    Interns (addClass member.owner >>= fun owner ↦
      addNameAndType member.name member.descriptor >>= fun pair ↦ intern (wrap owner pair)) :=
  (interns_addClass member.owner).bind fun owner ↦
    (interns_addNameAndType member.name member.descriptor).bind fun pair ↦
      interns_intern (hnarrow owner pair)

theorem Addition.interns (addition : Addition) : Interns addition.edit := by
  cases addition with
  | text value => exact interns_addText value
  | integer value => exact interns_intern rfl
  | classRef name => exact interns_addClass name
  | nameAndType name descriptor => exact interns_addNameAndType name descriptor
  | fieldRef member => exact interns_member member fun _ _ ↦ rfl
  | methodRef member => exact interns_member member fun _ _ ↦ rfl

/-! ### What an index leads to -/

/-- Under the index there is an entry of the kind that was asked for, and it resolves to what was
asked for. -/
def Addition.Resolves (pool : ConstantPool) (index : UInt16) : Addition → Prop
  | text value => pool.entryAt index = .ok (.utf8 value) ∧ pool.text index = .ok value
  | integer value => pool.entryAt index = .ok (.integer value)
  | classRef name =>
    (∃ text, pool.entryAt index = .ok (.classRef text)) ∧ pool.className index = .ok name
  | nameAndType name descriptor =>
    (∃ first second, pool.entryAt index = .ok (.nameAndType first second)) ∧
      pool.nameAndType index = .ok (name, descriptor)
  | fieldRef member =>
    (∃ owner pair, pool.entryAt index = .ok (.fieldRef owner pair)) ∧
      pool.memberRef index = .ok member
  | methodRef member =>
    (∃ owner pair, pool.entryAt index = .ok (.methodRef owner pair)) ∧
      pool.memberRef index = .ok member

/-- The last entry of a composite addition is under the index that it gives. -/
theorem exists_entryAt {first : Edit α} {wrap : α → Constant} (hfirst : Interns first)
    (hpool : pool.Framed)
    (h : (first >>= fun part ↦ intern (wrap part)).run.run pool = (.ok index, after)) :
    ∃ part, after.entryAt index = .ok (wrap part) := by
  obtain ⟨part, between, hpart, hlast⟩ := edit_bind_eq_ok.mp h
  have hbetween := hfirst.appended pool hpool
  rw [hpart] at hbetween
  exact ⟨part, (added_intern hbetween.framed.indexed hlast).answered⟩

theorem exists_entryAt_member {member : MemberRef} {wrap : UInt16 → UInt16 → Constant}
    (hpool : pool.Framed)
    (h : (addClass member.owner >>= fun owner ↦ addNameAndType member.name member.descriptor >>=
      fun pair ↦ intern (wrap owner pair)).run.run pool = (.ok index, after)) :
    ∃ owner pair, after.entryAt index = .ok (wrap owner pair) := by
  obtain ⟨owner, between, howner, hrest⟩ := edit_bind_eq_ok.mp h
  have hbetween := (interns_addClass member.owner).appended pool hpool
  rw [howner] at hbetween
  exact ⟨owner, exists_entryAt (interns_addNameAndType _ _) hbetween.framed hrest⟩

theorem Addition.resolves {addition : Addition} (hpool : pool.Framed)
    (h : addition.edit.run.run pool = (.ok index, after)) : addition.Resolves after index := by
  have hindexed := hpool.indexed
  cases addition with
  | text value => exact ⟨(added_intern hindexed h).answered, (added_addText hindexed h).answered⟩
  | integer value => exact (added_intern hindexed h).answered
  | classRef name =>
    exact ⟨exists_entryAt (interns_addText name) hpool h, (added_addClass hindexed h).answered⟩
  | nameAndType name descriptor =>
    refine ⟨?_, (added_addNameAndType hindexed h).answered⟩
    obtain ⟨first, between, hfirst, hrest⟩ := edit_bind_eq_ok.mp h
    have hbetween := (interns_addText name).appended pool hpool
    rw [hfirst] at hbetween
    exact ⟨first, exists_entryAt (interns_addText descriptor) hbetween.framed hrest⟩
  | fieldRef member =>
    exact ⟨exists_entryAt_member hpool h, (added_addFieldRef hindexed h).answered⟩
  | methodRef member =>
    exact ⟨exists_entryAt_member hpool h, (added_addMethodRef hindexed h).answered⟩

/-! ### Pools that were added to -/

/-- Whatever was added to a new or a parsed pool before: slot zero is empty, entries fill the other
slots, of which a wide one takes two, and there are at most 65535. An addition puts new entries
behind the old ones and changes no index that was there, however it ends. It fails only when every
slot is taken. Otherwise its index leads to what was added, and the same addition gives that index
again, now and in every pool that grows out of this one, and leaves the pool as it is. -/
theorem extend_appended {start pool after : ConstantPool} (hbegun : Begun start)
    {history : List Addition} (hextended : start.extend history = pool) {addition : Addition}
    {outcome : Except Malformation UInt16}
    (hadded : addition.edit.run.run pool = (outcome, after)) :
    pool.Framed ∧ Appended pool after ∧
      (∀ index, index.toNat < pool.slots.size → after.entryAt index = pool.entryAt index) ∧
      (∀ fault, outcome = .error fault → fault = .poolOverflow ∧ after.slots.size = capacity) ∧
      ∀ index, outcome = .ok index → addition.Resolves after index ∧
        addition.edit.run.run after = (.ok index, after) ∧
        ∀ larger, Appended after larger → addition.edit.run.run larger = (.ok index, larger) := by
  have hpool : pool.Framed :=
    hextended ▸ (brought_extend (wellFormed_iff.mp hbegun.wellFormed).1 history).framed
  obtain ⟨happended, hfull, hagain⟩ := addition.interns
  specialize happended pool hpool
  specialize hfull pool hpool
  specialize hagain pool hpool
  rw [hadded] at happended hfull hagain
  refine ⟨hpool, happended, fun index ↦ happended.entryAt_eq, hfull, ?_⟩
  rintro index rfl
  exact ⟨Addition.resolves hpool hadded, hagain index rfl after (.refl happended.framed),
    hagain index rfl⟩

/-- The pool of a single method. -/
def methodPool : ConstantPool :=
  ⟨#[none, some (.utf8 "p/F"), some (.classRef 1), some (.utf8 "m"), some (.utf8 "I"),
    some (.nameAndType 3 4), some (.methodRef 2 5)]⟩

/-- A field that is called like the method shares all of its entries but the last one. -/
theorem extend_appended_sharing :
    Begun .empty ∧ empty.extend [.methodRef ⟨"p/F", "m", "I"⟩] = methodPool ∧
      (Addition.fieldRef ⟨"p/F", "m", "I"⟩).edit.run.run methodPool =
        (.ok 7, methodPool.push (.fieldRef 2 5)) ∧
      (Addition.fieldRef ⟨"p/F", "m", "I"⟩).Resolves (methodPool.push (.fieldRef 2 5)) 7 ∧
      (methodPool.push (.fieldRef 2 5)).entryAt 6 = methodPool.entryAt 6 := by
  have hpool : empty.extend [.methodRef ⟨"p/F", "m", "I"⟩] = methodPool := by decide +kernel
  have howner : (addClass "p/F").run.run methodPool = (.ok 2, methodPool) :=
    edit_bind_eq_ok.mpr ⟨1, methodPool, intern_of_find?_eq_some (by decide +kernel),
      intern_of_find?_eq_some (by decide +kernel)⟩
  have hpair : (addNameAndType "m" "I").run.run methodPool = (.ok 5, methodPool) :=
    edit_bind_eq_ok.mpr ⟨3, methodPool, intern_of_find?_eq_some (by decide +kernel),
      edit_bind_eq_ok.mpr ⟨4, methodPool, intern_of_find?_eq_some (by decide +kernel),
        intern_of_find?_eq_some (by decide +kernel)⟩⟩
  have hnone : methodPool.find? (.fieldRef 2 5) = none := by decide +kernel
  have hnew : (intern (.fieldRef 2 5)).run.run methodPool =
      (.ok 7, methodPool.push (.fieldRef 2 5)) := by
    rw [intern_run, hnone]
    rfl
  have hadded : (Addition.fieldRef ⟨"p/F", "m", "I"⟩).edit.run.run methodPool =
      (.ok 7, methodPool.push (.fieldRef 2 5)) :=
    edit_bind_eq_ok.mpr ⟨2, methodPool, howner, edit_bind_eq_ok.mpr ⟨5, methodPool, hpair, hnew⟩⟩
  obtain ⟨-, -, hkept, -, hgiven⟩ := extend_appended .empty hpool hadded
  exact ⟨.empty, hpool, hadded, (hgiven 7 rfl).1, hkept 6 (by decide)⟩

end ClassWeaver.ClassFile.ConstantPool
