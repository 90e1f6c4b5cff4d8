import ClassWeaver.Proofs.ClassFile.Identity

/-!
What adding to a constant pool leaves in it.

Adding never takes anything away: whatever an index leads to, it leads to afterwards as well
(`Extends`, `Lasting`). An entry that was added is found under the index that adding it has given.
For that, indices must be as they are in every pool that was read (`Indexed`, `indexed_of_read`).
Members are resolved as if a number that was added were not there (`Numberless`).
-/

set_option autoImplicit false
set_option relaxedAutoImplicit false

namespace ClassWeaver.ClassFile.ConstantPool

variable {α β : Type} {pool larger largest : ConstantPool} {index : UInt16}

/-- Slot zero is empty, and every slot has an index. -/
structure Indexed (pool : ConstantPool) : Prop where
  zero : pool.slots[0]? = some none
  size_le : pool.slots.size ≤ capacity

/-- The pool holds what another one does, in the same slots. -/
def Extends (larger pool : ConstantPool) : Prop :=
  ∀ (slot : Nat) (entry : Constant),
    pool.slots[slot]? = some (some entry) → larger.slots[slot]? = some (some entry)

theorem Extends.refl (pool : ConstantPool) : pool.Extends pool :=
  fun _ _ h ↦ h

theorem Extends.trans (hlargest : largest.Extends larger) (hlarger : larger.Extends pool) :
    largest.Extends pool :=
  fun slot entry h ↦ hlargest slot entry (hlarger slot entry h)

/-! ### Resolving in a larger pool -/

/-- A query whose answer is the same in every larger pool. -/
def Lasting (query : ConstantPool → Except Malformation α) : Prop :=
  ∀ (pool larger : ConstantPool) (answer : α), larger.Extends pool →
    query pool = .ok answer → query larger = .ok answer

theorem Lasting.bind {query : ConstantPool → Except Malformation α}
    {next : ConstantPool → α → Except Malformation β} (hquery : Lasting query)
    (hnext : ∀ answer, Lasting fun pool ↦ next pool answer) :
    Lasting fun pool ↦ query pool >>= next pool := by
  intro pool larger answer hextends h
  obtain ⟨first, hfirst, h⟩ := except_bind_eq_ok.mp h
  exact except_bind_eq_ok.mpr
    ⟨first, hquery _ _ _ hextends hfirst, hnext first _ _ _ hextends h⟩

theorem lasting_const (outcome : Except Malformation α) : Lasting fun _ ↦ outcome :=
  fun _ _ _ _ h ↦ h

theorem entryAt_eq_ok {entry : Constant} :
    pool.entryAt index = .ok entry ↔ index ≠ 0 ∧ pool.slots[index.toNat]? = some (some entry) := by
  rw [entryAt]
  split
  · rename_i found hfound
    rw [hfound]
    split
    · rename_i hzero
      simp [hzero]
    · rename_i hzero
      simp [hzero]
  · rename_i hnone
    simp only [reduceCtorEq, false_iff, not_and]
    exact fun _ ↦ hnone entry

theorem lasting_entryAt (index : UInt16) : Lasting fun pool ↦ pool.entryAt index := by
  intro pool larger entry hextends hentry
  rw [entryAt_eq_ok] at hentry ⊢
  exact ⟨hentry.1, hextends _ _ hentry.2⟩

theorem lasting_text (index : UInt16) : Lasting fun pool ↦ pool.text index :=
  (lasting_entryAt index).bind fun entry ↦ by
    cases entry <;> exact lasting_const _

theorem lasting_className (index : UInt16) : Lasting fun pool ↦ pool.className index :=
  (lasting_entryAt index).bind fun entry ↦ by
    cases entry with
    | classRef name => exact lasting_text name
    | _ => exact lasting_const _

theorem lasting_nameAndType (index : UInt16) : Lasting fun pool ↦ pool.nameAndType index :=
  (lasting_entryAt index).bind fun entry ↦ by
    cases entry with
    | nameAndType name descriptor =>
      exact (lasting_text name).bind fun _ ↦
        (lasting_text descriptor).bind fun _ ↦ lasting_const _
    | _ => exact lasting_const _

theorem lasting_memberRef (index : UInt16) : Lasting fun pool ↦ pool.memberRef index :=
  (lasting_entryAt index).bind fun entry ↦ by
    have hparts (owner pair : UInt16) : Lasting fun pool ↦ do
        let named ← pool.nameAndType pair
        return (⟨← pool.className owner, named.1, named.2⟩ : MemberRef) :=
      (lasting_nameAndType pair).bind fun _ ↦ (lasting_className owner).bind fun _ ↦
        lasting_const _
    cases entry with
    | fieldRef owner pair => exact hparts owner pair
    | methodRef owner pair => exact hparts owner pair
    | interfaceMethodRef owner pair => exact hparts owner pair
    | _ => exact lasting_const _

/-! ### Adding entries -/

/-- What adding something has led to: a larger pool, in which a query about the index that was
given has the expected answer. -/
structure Added (pool larger : ConstantPool) (index : UInt16)
    (query : ConstantPool → UInt16 → Except Malformation α) (answer : α) : Prop where
  indexed : larger.Indexed
  extending : larger.Extends pool
  answered : query larger index = .ok answer

theorem getElem?_push (pool : ConstantPool) (entry : Constant) (slot : Nat) :
    (pool.push entry).slots[slot]? = (pool.slots.toList ++ entry.slots)[slot]? := by
  rw [push, ← Array.getElem?_toList, Array.toList_appendList]

theorem extends_push (pool : ConstantPool) (entry : Constant) :
    (pool.push entry).Extends pool := by
  intro slot old hold
  rw [← Array.getElem?_toList] at hold
  rw [getElem?_push, List.getElem?_append_left (List.getElem?_eq_some_iff.mp hold).1]
  exact hold

theorem Indexed.size_pos (h : pool.Indexed) : 0 < pool.slots.size :=
  (Array.getElem?_eq_some_iff.mp h.zero).1

theorem size_push (pool : ConstantPool) (entry : Constant) :
    (pool.push entry).slots.size = pool.slots.size + entry.slots.length := by
  rw [push, ← Array.length_toList, Array.toList_appendList, List.length_append,
    Array.length_toList]

theorem Indexed.push (h : pool.Indexed) {entry : Constant}
    (hroom : pool.slots.size + entry.slots.length ≤ capacity) : (pool.push entry).Indexed where
  zero := by
    rw [getElem?_push, List.getElem?_append_left (by simpa using h.size_pos),
      Array.getElem?_toList]
    exact h.zero
  size_le := size_push pool entry ▸ hroom

theorem getElem?_push_size (pool : ConstantPool) (entry : Constant) :
    (pool.push entry).slots[pool.slots.size]? = some (some entry) := by
  rw [getElem?_push, List.getElem?_append_right (by simp), Constant.slots]
  split
  · simp
  · simp

theorem intern_run (entry : Constant) (pool : ConstantPool) :
    (intern entry).run.run pool = match pool.find? entry with
      | some found => (.ok found, pool)
      | none =>
        if capacity < pool.slots.size + entry.slots.length then (.error .poolOverflow, pool)
        else (.ok (UInt16.ofNat pool.slots.size), pool.push entry) := by
  change StateT.run (ExceptT.run (match pool.find? entry with | some _ => _ | none => _)) pool = _
  cases pool.find? entry with
  | some found => rfl
  | none =>
    dsimp only
    split
    · rfl
    · rfl

theorem toNat_ofNat_slot {slot : Nat} (h : slot < capacity) : (UInt16.ofNat slot).toNat = slot :=
  UInt16.toNat_ofNat_of_lt' (Nat.lt_trans h (by decide))

theorem added_intern {entry : Constant} (hindexed : pool.Indexed)
    (h : (intern entry).run.run pool = (.ok index, larger)) :
    Added pool larger index entryAt entry := by
  rw [intern_run] at h
  split at h
  · rename_i found hfound
    cases h
    obtain ⟨slot, hslot, rfl⟩ := Option.map_eq_some_iff.mp hfound
    obtain ⟨hlt, hentry, -⟩ := Array.findIdx?_eq_some_iff_getElem.mp hslot
    have hslotEntry : pool.slots[slot]? = some (some entry) := by
      rw [Array.getElem?_eq_getElem hlt, beq_iff_eq.mp hentry]
    have hnumber := toNat_ofNat_slot (Nat.lt_of_lt_of_le hlt hindexed.size_le)
    refine ⟨hindexed, .refl pool, entryAt_eq_ok.mpr ⟨fun hzero ↦ ?_, by rw [hnumber, hslotEntry]⟩⟩
    obtain rfl : slot = 0 := hnumber.symm.trans (congrArg UInt16.toNat hzero)
    exact absurd (hindexed.zero.symm.trans hslotEntry) (by simp)
  · split at h
    · cases h
    · rename_i hroom
      cases h
      have hroom := Nat.le_of_not_lt hroom
      have hlt : pool.slots.size < capacity := by
        have hslots : 0 < entry.slots.length := by
          rw [Constant.slots]
          split <;> simp
        omega
      have hnumber := toNat_ofNat_slot hlt
      refine ⟨hindexed.push hroom, extends_push pool entry,
        entryAt_eq_ok.mpr ⟨fun hzero ↦ ?_, by rw [hnumber, getElem?_push_size]⟩⟩
      exact Nat.ne_of_gt hindexed.size_pos (hnumber.symm.trans (congrArg UInt16.toNat hzero))

/-- An entry that is not there yet gets the first free index. -/
theorem intern_of_not_mem {slots : List (Option Constant)} {entry : Constant}
    (hnew : some entry ∉ slots) (hroom : slots.length + entry.slots.length ≤ capacity)
    (hindex : UInt16.ofNat slots.length = index) :
    (intern entry).run.run ⟨slots.toArray⟩ = (.ok index, ⟨(slots ++ entry.slots).toArray⟩) := by
  have hfind : find? ⟨slots.toArray⟩ entry = none := by
    rw [find?, List.findIdx?_toArray, Option.map_eq_none_iff, List.findIdx?_eq_none_iff]
    rintro slot hslot
    rw [beq_eq_false_iff_ne]
    rintro rfl
    exact hnew hslot
  rw [intern_run, hfind]
  dsimp only
  rw [push, List.size_toArray, if_neg (Nat.not_lt.mpr hroom), hindex]
  simp

/-- While there is room, an entry gets an index, and takes up no more than it needs. -/
theorem exists_intern (entry : Constant) (room : Nat)
    (hroom : pool.slots.size + entry.slots.length + room ≤ capacity) :
    ∃ index larger, (intern entry).run.run pool = (.ok index, larger) ∧
      larger.slots.size + room ≤ capacity := by
  rw [intern_run]
  cases pool.find? entry with
  | some found => exact ⟨found, pool, rfl, by omega⟩
  | none =>
    dsimp only
    rw [if_neg (by omega)]
    exact ⟨_, _, rfl, by rwa [size_push]⟩

/-- A reference to a method takes six entries at most. -/
theorem exists_addMethodRef (member : MemberRef) (room : Nat)
    (hroom : pool.slots.size + 6 + room ≤ capacity) :
    ∃ index larger, (addMethodRef member).run.run pool = (.ok index, larger) ∧
      larger.slots.size + room ≤ capacity := by
  have hone {pool : ConstantPool} {rest : Nat} (entry : Constant) (hwidth : entry.slots.length = 1)
      (h : pool.slots.size + (rest + 1) ≤ capacity) : ∃ index larger,
        (intern entry).run.run pool = (.ok index, larger) ∧ larger.slots.size + rest ≤ capacity :=
    exists_intern entry rest (by omega)
  obtain ⟨ownerName, first, hownerName, hfirst⟩ := hone (.utf8 member.owner) rfl
    (show pool.slots.size + (room + 5 + 1) ≤ capacity by omega)
  obtain ⟨owner, second, howner, hsecond⟩ := hone (.classRef ownerName) rfl hfirst
  obtain ⟨name, third, hname, hthird⟩ := hone (.utf8 member.name) rfl hsecond
  obtain ⟨descriptor, fourth, hdescriptor, hfourth⟩ := hone (.utf8 member.descriptor) rfl hthird
  obtain ⟨pair, fifth, hpair, hfifth⟩ := hone (.nameAndType name descriptor) rfl hfourth
  obtain ⟨index, larger, hindex, hsixth⟩ := hone (.methodRef owner pair) rfl hfifth
  exact ⟨index, larger, edit_bind_eq_ok.mpr ⟨owner, second,
    edit_bind_eq_ok.mpr ⟨ownerName, first, hownerName, howner⟩, edit_bind_eq_ok.mpr ⟨pair, fifth,
      edit_bind_eq_ok.mpr ⟨name, third, hname,
        edit_bind_eq_ok.mpr ⟨descriptor, fourth, hdescriptor, hpair⟩⟩, hindex⟩⟩, hsixth⟩

/-- An entry that was not there is found where it was added. -/
theorem find?_push {entry : Constant} (h : pool.find? entry = none) :
    (pool.push entry).find? entry = some (UInt16.ofNat pool.slots.size) := by
  rw [find?, Option.map_eq_none_iff, Array.findIdx?_eq_none_iff] at h
  have hadded := getElem?_push_size pool entry
  obtain ⟨hlt, hentry⟩ := Array.getElem?_eq_some_iff.mp hadded
  rw [find?, Option.map_eq_some_iff]
  refine ⟨pool.slots.size, Array.findIdx?_eq_some_iff_getElem.mpr
    ⟨hlt, by simp [hentry], fun slot hslot ↦ ?_⟩, rfl⟩
  have hold := getElem?_push pool entry slot
  rw [List.getElem?_append_left (by simpa using hslot), Array.getElem?_toList,
    Array.getElem?_eq_getElem hslot, Array.getElem?_eq_getElem (Nat.lt_trans hslot hlt)] at hold
  rw [Option.some.inj hold, h _ (Array.getElem_mem hslot)]
  exact Bool.false_ne_true

theorem grown_of_intern {entry : Constant}
    (h : (intern entry).run.run pool = (.ok index, larger)) :
    larger = pool ∨ larger = pool.push entry := by
  rw [intern_run] at h
  split at h
  · cases h
    exact .inl rfl
  · split at h
    · cases h
    · cases h
      exact .inr rfl

/-- What is found when an entry is added is found when it is added again. -/
theorem intern_again {entry : Constant}
    (h : (intern entry).run.run pool = (.ok index, larger)) :
    (intern entry).run.run larger = (.ok index, larger) := by
  rw [intern_run] at h
  split at h
  · rename_i found hfound
    cases h
    rw [intern_run, hfound]
  · rename_i hnone
    split at h
    · cases h
    · cases h
      rw [intern_run, find?_push hnone]

theorem added_addText {text : String} (hindexed : pool.Indexed)
    (h : (addText text).run.run pool = (.ok index, larger)) :
    Added pool larger index ConstantPool.text text := by
  obtain ⟨hlarger, hextending, hentry⟩ := added_intern hindexed h
  exact ⟨hlarger, hextending, by rw [ConstantPool.text, hentry]; rfl⟩

theorem added_addClass {name : String} (hindexed : pool.Indexed)
    (h : (addClass name).run.run pool = (.ok index, larger)) :
    Added pool larger index className name := by
  obtain ⟨text, between, htext, h⟩ := edit_bind_eq_ok.mp h
  obtain ⟨hbetween, hfirst, hname⟩ := added_addText hindexed htext
  obtain ⟨hlarger, hsecond, hentry⟩ := added_intern hbetween h
  refine ⟨hlarger, hsecond.trans hfirst, ?_⟩
  rw [className, hentry]
  exact lasting_text text _ _ _ hsecond hname

theorem added_addNameAndType {name descriptor : String} (hindexed : pool.Indexed)
    (h : (addNameAndType name descriptor).run.run pool = (.ok index, larger)) :
    Added pool larger index nameAndType (name, descriptor) := by
  obtain ⟨first, named, hnamed, h⟩ := edit_bind_eq_ok.mp h
  obtain ⟨second, described, hdescribed, h⟩ := edit_bind_eq_ok.mp h
  obtain ⟨hnamedIndexed, hnamed, hname⟩ := added_addText hindexed hnamed
  obtain ⟨hdescribedIndexed, hdescribed, hdescriptor⟩ := added_addText hnamedIndexed hdescribed
  obtain ⟨hindexed, hlarger, hentry⟩ := added_intern hdescribedIndexed h
  refine ⟨hindexed, hlarger.trans (hdescribed.trans hnamed), ?_⟩
  have hname := lasting_text first _ _ _ (hlarger.trans hdescribed) hname
  have hdescriptor := lasting_text second _ _ _ hlarger hdescriptor
  rw [nameAndType]
  exact except_bind_eq_ok.mpr ⟨_, hentry,
    except_bind_eq_ok.mpr ⟨name, hname, except_bind_eq_ok.mpr ⟨descriptor, hdescriptor, rfl⟩⟩⟩

/-- A member is resolved as it was added, whichever of its kinds the entry is. -/
theorem added_member {member : MemberRef} {wrap : UInt16 → UInt16 → Constant}
    (hwrap : ∀ (pool : ConstantPool) (index owner pair : UInt16),
      pool.entryAt index = .ok (wrap owner pair) →
        pool.memberRef index = (do
          let named ← pool.nameAndType pair
          return ⟨← pool.className owner, named.1, named.2⟩))
    (hindexed : pool.Indexed)
    (h : (addClass member.owner >>= fun owner ↦ addNameAndType member.name member.descriptor >>=
      fun pair ↦ intern (wrap owner pair)).run.run pool = (.ok index, larger)) :
    Added pool larger index memberRef member := by
  obtain ⟨owner, owned, howned, h⟩ := edit_bind_eq_ok.mp h
  obtain ⟨pair, paired, hpaired, h⟩ := edit_bind_eq_ok.mp h
  obtain ⟨hownedIndexed, howned, howner⟩ := added_addClass hindexed howned
  obtain ⟨hpairedIndexed, hpaired, hpair⟩ := added_addNameAndType hownedIndexed hpaired
  obtain ⟨hindexed, hlarger, hentry⟩ := added_intern hpairedIndexed h
  refine ⟨hindexed, hlarger.trans (hpaired.trans howned), ?_⟩
  have howner := lasting_className owner _ _ _ (hlarger.trans hpaired) howner
  have hpair := lasting_nameAndType pair _ _ _ hlarger hpair
  rw [hwrap _ _ _ _ hentry]
  exact except_bind_eq_ok.mpr ⟨_, hpair, except_bind_eq_ok.mpr ⟨member.owner, howner, rfl⟩⟩

theorem added_addFieldRef {member : MemberRef} (hindexed : pool.Indexed)
    (h : (addFieldRef member).run.run pool = (.ok index, larger)) :
    Added pool larger index memberRef member :=
  added_member (fun _ _ _ _ hentry ↦ by rw [memberRef, hentry]; rfl) hindexed h

theorem added_addMethodRef {member : MemberRef} (hindexed : pool.Indexed)
    (h : (addMethodRef member).run.run pool = (.ok index, larger)) :
    Added pool larger index memberRef member :=
  added_member (fun _ _ _ _ hentry ↦ by rw [memberRef, hentry]; rfl) hindexed h

/-! ### Adding a number -/

theorem entryAt_of_push {value : Int32} {entry : Constant}
    (h : (pool.push (.integer value)).entryAt index = .ok entry) :
    entry = .integer value ∨ pool.entryAt index = .ok entry := by
  rw [entryAt_eq_ok] at h ⊢
  obtain ⟨hzero, hslot⟩ := h
  rw [getElem?_push, List.getElem?_append] at hslot
  split at hslot
  · right
    rw [← Array.getElem?_toList]
    exact ⟨hzero, hslot⟩
  · left
    have hmem := List.mem_of_getElem? hslot
    exact Option.some.inj (List.mem_singleton.mp hmem)

/-- A query that does not look at numbers: it has its answer without one that was added. -/
def Numberless {α : Type} (query : ConstantPool → Except Malformation α) : Prop :=
  ∀ (pool : ConstantPool) (value : Int32) (answer : α),
    query (pool.push (.integer value)) = .ok answer → query pool = .ok answer

theorem numberless_const {α : Type} (outcome : Except Malformation α) :
    Numberless fun _ ↦ outcome :=
  fun _ _ _ h ↦ h

theorem Numberless.bind {α β : Type} {query : ConstantPool → Except Malformation α}
    {next : ConstantPool → α → Except Malformation β} (hquery : Numberless query)
    (hnext : ∀ answer, Numberless fun pool ↦ next pool answer) :
    Numberless fun pool ↦ query pool >>= next pool := by
  intro pool value answer h
  obtain ⟨first, hfirst, h⟩ := except_bind_eq_ok.mp h
  exact except_bind_eq_ok.mpr ⟨first, hquery _ _ _ hfirst, hnext first _ _ _ h⟩

/-- Going on from an entry, other than from a number. -/
theorem numberless_entryAt_bind {α : Type} {next : ConstantPool → Constant → Except Malformation α}
    (hnumber : ∀ pool value answer, next pool (.integer value) ≠ .ok answer)
    (hnext : ∀ entry, Numberless fun pool ↦ next pool entry) (index : UInt16) :
    Numberless fun pool ↦ pool.entryAt index >>= next pool := by
  intro pool value answer h
  obtain ⟨entry, hentry, h⟩ := except_bind_eq_ok.mp h
  rcases entryAt_of_push hentry with rfl | hold
  · exact absurd h (hnumber _ _ _)
  · exact except_bind_eq_ok.mpr ⟨entry, hold, hnext entry _ _ _ h⟩

theorem numberless_text (index : UInt16) : Numberless fun pool ↦ pool.text index :=
  numberless_entryAt_bind (fun _ _ _ h ↦ by cases h)
    (fun entry ↦ by cases entry <;> exact numberless_const _) index

theorem numberless_className (index : UInt16) : Numberless fun pool ↦ pool.className index :=
  numberless_entryAt_bind (fun _ _ _ h ↦ by cases h) (fun entry ↦ by
    cases entry with
    | classRef name => exact numberless_text name
    | _ => exact numberless_const _) index

theorem numberless_nameAndType (index : UInt16) : Numberless fun pool ↦ pool.nameAndType index :=
  numberless_entryAt_bind (fun _ _ _ h ↦ by cases h) (fun entry ↦ by
    cases entry with
    | nameAndType name descriptor =>
      exact (numberless_text name).bind fun _ ↦
        (numberless_text descriptor).bind fun _ ↦ numberless_const _
    | _ => exact numberless_const _) index

theorem numberless_memberRef (index : UInt16) : Numberless fun pool ↦ pool.memberRef index :=
  numberless_entryAt_bind (fun _ _ _ h ↦ by cases h) (fun entry ↦ by
    have hparts (owner pair : UInt16) : Numberless fun pool ↦ do
        let named ← pool.nameAndType pair
        return (⟨← pool.className owner, named.1, named.2⟩ : MemberRef) :=
      (numberless_nameAndType pair).bind fun _ ↦ (numberless_className owner).bind fun _ ↦
        numberless_const _
    cases entry with
    | fieldRef owner pair => exact hparts owner pair
    | methodRef owner pair => exact hparts owner pair
    | interfaceMethodRef owner pair => exact hparts owner pair
    | _ => exact numberless_const _) index

/-! ### Pools that were read -/

theorem indexed_of_read {input rest : Bytes} (h : Reader.constantPool input = .ok (pool, rest)) :
    pool.Indexed := by
  obtain ⟨declared, middle, -, h⟩ := Parser.bind_eq_ok.mp h
  obtain ⟨entries, last, hentries, h⟩ := Parser.bind_eq_ok.mp h
  obtain ⟨rfl, rfl⟩ := Parser.pure_eq_ok.mp h
  obtain ⟨raw, -, hfills⟩ := constants_eq_ok hentries
  refine ⟨by simp, ?_⟩
  have hsize : (none :: entries).toArray.size = declared.toNat - 1 + 1 := by
    rw [List.size_toArray, List.length_cons, hfills.length_eq]
  have hlt := declared.toNat_lt
  rw [hsize, capacity]
  omega

end ClassWeaver.ClassFile.ConstantPool
