import ClassWeaver.Proofs.ClassFile.Accepted
import ClassWeaver.Proofs.ClassFile.Interning

/-!
What additions leave of a well-formed pool, and of what refers to it.

Whether an addition succeeds or runs out of room half way, it takes nothing out of a pool and brings
in no texts but its own (`Addition.brings`). So a pool that is well formed stays so as long as no
text is added that is too long to be written. Attributes that are well formed in a pool are so in
every pool that extends it.
-/

set_option autoImplicit false
set_option relaxedAutoImplicit false

namespace ClassWeaver.ClassFile

open Text

namespace ConstantPool

variable {α β : Type} {pool larger : ConstantPool} {entry : Constant}

/-! ### Pools that grow -/

/-- Slot zero is empty and entries fill the others, whether they can be written or not. -/
structure Framed (pool : ConstantPool) : Prop where
  tiled : ∃ entries : List Constant, pool.slots.toList = none :: entries.flatMap Constant.slots
  size_le : pool.slots.size ≤ capacity

/-- The text is an entry of the pool. -/
def Holds (pool : ConstantPool) (text : String) : Prop :=
  some (.utf8 text) ∈ pool.slots.toList

theorem wellFormed_iff : pool.WellFormed ↔
    pool.Framed ∧ ∀ text, pool.Holds text → (ModifiedUtf8.encode text).length ≤ maxCount :=
  ⟨fun h ↦ ⟨⟨h.tiled, h.size_le⟩, h.texts⟩, fun ⟨hframed, htexts⟩ ↦
    ⟨hframed.tiled, hframed.size_le, htexts⟩⟩

theorem Framed.indexed (h : pool.Framed) : pool.Indexed where
  zero := by
    obtain ⟨entries, hslots⟩ := h.tiled
    rw [← Array.getElem?_toList, hslots]
    rfl
  size_le := h.size_le

theorem WellFormed.indexed (h : pool.WellFormed) : pool.Indexed :=
  (wellFormed_iff.mp h).1.indexed

theorem Extends.holds (h : larger.Extends pool) {text : String} (hmem : pool.Holds text) :
    larger.Holds text := by
  obtain ⟨slot, hslot⟩ := List.mem_iff_getElem?.mp hmem
  rw [Array.getElem?_toList] at hslot
  exact List.mem_iff_getElem?.mpr ⟨slot, Array.getElem?_toList ▸ h slot _ hslot⟩

theorem toList_push (pool : ConstantPool) (entry : Constant) :
    (pool.push entry).slots.toList = pool.slots.toList ++ entry.slots := by
  rw [push, Array.toList_appendList]

theorem Framed.push (h : pool.Framed) (hroom : pool.slots.size + entry.slots.length ≤ capacity) :
    (pool.push entry).Framed := by
  obtain ⟨entries, hslots⟩ := h.tiled
  refine ⟨⟨entries ++ [entry], ?_⟩, ?_⟩
  · rw [toList_push, hslots, List.flatMap_append, List.flatMap_singleton, List.cons_append]
  · rw [← Array.length_toList, toList_push, List.length_append]
    exact hroom

/-- The later pool holds what the earlier one does, and no other texts than that and these. -/
structure Brought (texts : List String) (before after : ConstantPool) : Prop where
  framed : after.Framed
  extending : after.Extends before
  brought : ∀ text, after.Holds text → before.Holds text ∨ text ∈ texts

theorem Brought.refl {texts : List String} (h : pool.Framed) : Brought texts pool pool :=
  ⟨h, .refl pool, fun _ ↦ .inl⟩

theorem Brought.trans {texts : List String} {largest : ConstantPool}
    (h : Brought texts pool larger) (hlater : Brought texts larger largest) :
    Brought texts pool largest where
  framed := hlater.framed
  extending := hlater.extending.trans h.extending
  brought text hmem := (hlater.brought text hmem).elim (h.brought text) .inr

theorem Brought.holds_iff (h : Brought [] pool larger) (text : String) :
    larger.Holds text ↔ pool.Holds text :=
  ⟨fun hmem ↦ (h.brought text hmem).resolve_right List.not_mem_nil, h.extending.holds⟩

/-- Whether it fails or not, the edit takes nothing out of a pool, and brings in no texts but
these. -/
def Brings (texts : List String) (edit : Edit α) : Prop :=
  ∀ pool : ConstantPool, pool.Framed → Brought texts pool (edit.run.run pool).2

section Brings

variable {texts : List String}

theorem brings_intern (htexts : ∀ text, entry = .utf8 text → text ∈ texts) :
    Brings texts (intern entry) := by
  intro pool hpool
  rw [intern_run]
  split
  · exact .refl hpool
  · split
    · exact .refl hpool
    · rename_i hroom
      refine ⟨hpool.push (Nat.le_of_not_lt hroom), extends_push pool entry, fun text hmem ↦ ?_⟩
      rw [Holds, toList_push] at hmem
      exact (List.mem_append.mp hmem).imp_right
        fun hnew ↦ htexts text (Constant.eq_of_mem_slots hnew)

theorem Brings.bind {first : Edit α} {next : α → Edit β} (hfirst : Brings texts first)
    (hnext : ∀ answer, Brings texts (next answer)) : Brings texts (first >>= next) := by
  intro pool hpool
  have hbetween := hfirst pool hpool
  rw [edit_bind_run]
  rcases hended : first.run.run pool with ⟨outcome, between⟩
  rw [hended] at hbetween
  cases outcome with
  | error fault => exact hbetween
  | ok answer => exact hbetween.trans (hnext answer between hbetween.framed)

theorem brings_addText {text : String} (h : text ∈ texts) : Brings texts (addText text) := by
  refine brings_intern ?_
  rintro _ ⟨⟩
  exact h

theorem brings_addClass {name : String} (h : name ∈ texts) : Brings texts (addClass name) :=
  (brings_addText h).bind fun _ ↦ brings_intern nofun

theorem brings_addNameAndType {name descriptor : String} (hname : name ∈ texts)
    (hdescriptor : descriptor ∈ texts) : Brings texts (addNameAndType name descriptor) :=
  (brings_addText hname).bind fun _ ↦ (brings_addText hdescriptor).bind fun _ ↦ brings_intern nofun

/-- A member is added by way of its class, its name and its descriptor. -/
theorem brings_member (member : MemberRef) {wrap : UInt16 → UInt16 → Constant}
    (hwrap : ∀ owner pair text, wrap owner pair ≠ .utf8 text) :
    Brings [member.owner, member.name, member.descriptor]
      (addClass member.owner >>= fun owner ↦
        addNameAndType member.name member.descriptor >>= fun pair ↦ intern (wrap owner pair)) :=
  (brings_addClass (by simp)).bind fun owner ↦
    (brings_addNameAndType (by simp) (by simp)).bind fun pair ↦
      brings_intern fun text htext ↦ absurd htext (hwrap owner pair text)

end Brings

/-! ### Additions -/

/-- Something that is added to a pool. -/
inductive Addition where
  | text (value : String)
  | integer (value : Int32)
  | classRef (name : String)
  | nameAndType (name descriptor : String)
  | fieldRef (member : MemberRef)
  | methodRef (member : MemberRef)

namespace Addition

def edit : Addition → Edit UInt16
  | text value => addText value
  | integer value => addInteger value
  | classRef name => addClass name
  | nameAndType name descriptor => addNameAndType name descriptor
  | fieldRef member => addFieldRef member
  | methodRef member => addMethodRef member

/-- The texts that an addition brings in. -/
def texts : Addition → List String
  | text value => [value]
  | integer _ => []
  | classRef name => [name]
  | nameAndType name descriptor => [name, descriptor]
  | fieldRef member | methodRef member => [member.owner, member.name, member.descriptor]

/-- Every text is short enough to be written. -/
def Short (addition : Addition) : Prop :=
  ∀ text ∈ addition.texts, (ModifiedUtf8.encode text).length ≤ maxCount

theorem brings (addition : Addition) : Brings addition.texts addition.edit := by
  cases addition with
  | text value => exact brings_addText List.mem_cons_self
  | integer value => exact brings_intern nofun
  | classRef name => exact brings_addClass List.mem_cons_self
  | nameAndType name descriptor =>
    exact brings_addNameAndType List.mem_cons_self (List.mem_cons_of_mem _ List.mem_cons_self)
  | fieldRef member => exact brings_member member fun _ _ _ ↦ nofun
  | methodRef member => exact brings_member member fun _ _ _ ↦ nofun

/-- A pool in which short texts are put stays well formed. -/
theorem safe {addition : Addition} (h : addition.Short) (hpool : pool.WellFormed) :
    (addition.edit.run.run pool).2.WellFormed ∧ (addition.edit.run.run pool).2.Extends pool := by
  obtain ⟨hframed, htexts⟩ := wellFormed_iff.mp hpool
  obtain ⟨hafter, hextends, hbrought⟩ := addition.brings pool hframed
  refine ⟨wellFormed_iff.mpr ⟨hafter, fun text hmem ↦ ?_⟩, hextends⟩
  exact (hbrought text hmem).elim (htexts text) (h text)

end Addition

end ConstantPool

/-! ### Attributes in a larger pool -/

section Larger

variable {pool larger : ConstantPool}

mutual

theorem Attribute.WellFormed.mono (hextends : larger.Extends pool) {attr : Attribute} :
    attr.WellFormed pool → attr.WellFormed larger
  | .intro htitle hlength hcontent =>
    .intro (ConstantPool.lasting_text _ _ _ _ hextends htitle) hlength (hcontent.mono hextends)

theorem AttributeContent.WellFormed.mono (hextends : larger.Extends pool)
    {content : AttributeContent} : content.WellFormed pool → content.WellFormed larger
  | .constantValue value => .constantValue value
  | .code hhandlers hcount hattributes =>
    .code hhandlers hcount fun attr hmem ↦ (hattributes attr hmem).mono hextends
  | .stackMap hcount hframes => .stackMap hcount hframes
  | .exceptions hcount => .exceptions hcount
  | .signature text => .signature text
  | .sourceFile text => .sourceFile text
  | .lineNumbers hcount => .lineNumbers hcount
  | .localVariables hcount => .localVariables hcount
  | .localVariableTypes hcount => .localVariableTypes hcount
  | .deprecated => .deprecated
  | .synthetic => .synthetic
  | .opaqueBytes htitle => .opaqueBytes htitle

end

end Larger

end ClassWeaver.ClassFile
