import ClassWeaver.Proofs.ClassFile.Additions
import ClassWeaver.Proofs.ClassFile.Rereading

/-!
Which pools are read back as they were written.

Slots are counted when entries are added, so that their number fits into its two bytes. The bytes of
a text are not: a pool holds any text, and a longer one than its length can tell is written with a
length that is not its own. A pool that comes of additions is read back if and only if it holds no
such text (`readBack_extend_iff`), and nothing is read as a pool that does.
-/

set_option autoImplicit false
set_option relaxedAutoImplicit false

namespace ClassWeaver.ClassFile.ConstantPool

open Text

/-! ### Pools and their bytes -/

/-- From what is written of the pool, the pool is read and nothing else. -/
def ReadBack (pool : ConstantPool) : Prop :=
  Parser.Reads Reader.constantPool pool.bytes pool

theorem readBack_iff_wellFormed {pool : ConstantPool} : pool.ReadBack ↔ pool.WellFormed := by
  constructor
  · intro h
    exact Reader.gives_constantPool _ _ _ (h [])
  · exact Reader.reads_constantPool

/-! ### Pools that come of additions -/

/-- A pool to which additions are made: an empty one, or that of a class that was read. -/
inductive Begun : ConstantPool → Prop
  | empty : Begun .empty
  | read {input : Bytes} {file : ClassFile} (hparse : parse input = .ok file) : Begun file.pool

theorem Begun.wellFormed {pool : ConstantPool} (h : Begun pool) : pool.WellFormed := by
  cases h with
  | empty => exact ⟨⟨[], rfl⟩, by decide, by simp [ConstantPool.empty]⟩
  | read hparse => exact (settled_of_parse hparse).pool

/-- What becomes of the pool through additions, one after the other, whether they fail or not. -/
def extend (pool : ConstantPool) (additions : List Addition) : ConstantPool :=
  additions.foldl (fun grown addition ↦ (addition.edit.run.run grown).2) pool

theorem brought_extend {pool : ConstantPool} (h : pool.Framed) (additions : List Addition) :
    Brought (additions.flatMap Addition.texts) pool (pool.extend additions) := by
  induction additions generalizing pool with
  | nil => exact .refl h
  | cons addition rest ih =>
    have hfirst := addition.brings pool h
    have hrest := ih hfirst.framed
    refine ⟨hrest.framed, hrest.extending.trans hfirst.extending, fun text hmem ↦ ?_⟩
    rw [List.flatMap_cons, List.mem_append]
    rcases hrest.brought text hmem with hbetween | hlater
    · exact (hfirst.brought text hbetween).imp_right .inl
    · exact .inr (.inr hlater)

section Long

variable {pool : ConstantPool} (hpool : pool.WellFormed) (additions : List Addition)

include hpool

/-- A text that is too long to be written is one that was added. -/
theorem exists_addition_of_long {text : String} (hmem : (pool.extend additions).Holds text)
    (hlong : maxCount < (ModifiedUtf8.encode text).length) :
    ∃ addition ∈ additions, text ∈ addition.texts := by
  rcases (brought_extend (wellFormed_iff.mp hpool).1 additions).brought text hmem with hold | hnew
  · exact absurd (hpool.texts text hold) (Nat.not_le.mpr hlong)
  · exact List.mem_flatMap.mp hnew

theorem forall_short_extend_iff :
    (∀ text, (pool.extend additions).Holds text →
      (ModifiedUtf8.encode text).length ≤ maxCount) ↔
        ∀ addition ∈ additions, ∀ text ∈ addition.texts, (pool.extend additions).Holds text →
          (ModifiedUtf8.encode text).length ≤ maxCount := by
  refine ⟨fun hall _ _ text _ ↦ hall text, fun hadded text hmem ↦ ?_⟩
  by_contra hlong
  obtain ⟨addition, haddition, htext⟩ :=
    exists_addition_of_long hpool additions hmem (Nat.not_le.mp hlong)
  exact hlong (hadded addition haddition text htext hmem)

end Long

/-- Whatever additions were made to a pool: its slots are counted in full, it is read back if and
only if the length of every text in it fits into two bytes, and a longer text is one that was added.
From no bytes at all is a pool read that holds one. -/
theorem readBack_extend_iff {start pool : ConstantPool} (hbegun : Begun start)
    {additions : List Addition} (hextended : start.extend additions = pool) :
    pool.count.toNat = pool.slots.size ∧
      (pool.ReadBack ↔
        ∀ text, pool.Holds text → (ModifiedUtf8.encode text).length ≤ maxCount) ∧
      (∀ text, pool.Holds text → maxCount < (ModifiedUtf8.encode text).length →
        ∃ addition ∈ additions, text ∈ addition.texts) ∧
      ∀ input rest text, Reader.constantPool input = .ok (pool, rest) → pool.Holds text →
        (ModifiedUtf8.encode text).length ≤ maxCount := by
  subst hextended
  have hframed := (brought_extend (wellFormed_iff.mp hbegun.wellFormed).1 additions).framed
  refine ⟨UInt16.toNat_ofNat_of_lt' (Nat.lt_succ_of_le hframed.size_le), ?_,
    fun _ ↦ exists_addition_of_long hbegun.wellFormed additions, fun input rest text hread ↦ ?_⟩
  · rw [readBack_iff_wellFormed, wellFormed_iff]
    exact and_iff_right hframed
  · exact (Reader.gives_constantPool _ _ _ hread).texts text

/-- A method is added to an empty pool. -/
theorem readBack_extend_methodRef :
    Begun .empty ∧ (empty.extend [.methodRef ⟨"p/F", "m", "()V"⟩]).ReadBack := by
  obtain ⟨-, hiff, hlong, -⟩ :=
    readBack_extend_iff .empty (Eq.refl (empty.extend [.methodRef ⟨"p/F", "m", "()V"⟩]))
  refine ⟨.empty, hiff.mpr fun text hmem ↦ ?_⟩
  have hshort : (Addition.methodRef ⟨"p/F", "m", "()V"⟩).Short := by
    simp only [Addition.Short, Addition.texts, List.forall_mem_cons]
    decide
  by_contra htoo
  obtain ⟨addition, haddition, htext⟩ := hlong text hmem (Nat.not_le.mp htoo)
  obtain rfl := List.mem_singleton.mp haddition
  exact htoo (hshort text htext)

/-! ### Texts that are too long -/

/-- No text is refused for its length. -/
theorem text_empty (text : String) :
    (Addition.text text).edit.run.run .empty = (.ok 1, ⟨#[none, some (.utf8 text)]⟩) := by
  have hroom :
      [(none : Option Constant)].length + (Constant.utf8 text).slots.length ≤ capacity := by
    change 1 + 1 ≤ 65535
    decide
  exact intern_of_not_mem (by simp) hroom rfl

theorem extend_text_empty (text : String) :
    empty.extend [.text text] = ⟨#[none, some (.utf8 text)]⟩ :=
  congrArg Prod.snd (text_empty text)

theorem not_readBack_of_long {text : String} (h : maxCount < (ModifiedUtf8.encode text).length) :
    ¬ (empty.extend [.text text]).ReadBack := by
  intro hread
  have hholds : (empty.extend [.text text]).Holds text := by
    rw [extend_text_empty]
    exact List.mem_cons_of_mem _ List.mem_cons_self
  exact Nat.not_lt.mpr ((readBack_iff_wellFormed.mp hread).texts text hholds) h

theorem encode_replicate (count : Nat) :
    ModifiedUtf8.encode (String.ofList (List.replicate count 'a')) = List.replicate count 97 := by
  rw [ModifiedUtf8.encode, String.toList_ofList, ModifiedUtf8.encodeUnits, utf16]
  induction count with
  | zero => rfl
  | succ count ih =>
    rw [List.replicate_succ, List.flatMap_cons, List.flatMap_append, ih]
    rfl

/-- A text with one byte more than its length can tell. -/
def longText : String :=
  String.ofList (List.replicate 65536 'a')

theorem encode_longText : ModifiedUtf8.encode longText = 97 :: List.replicate 65535 97 :=
  (encode_replicate 65536).trans List.replicate_succ

theorem maxCount_lt_longText : maxCount < (ModifiedUtf8.encode longText).length := by
  rw [encode_longText, List.length_cons, List.length_replicate]
  decide

/-- The text is added, and the pool is not read back. -/
theorem not_readBack_longText :
    (∃ pool, (Addition.text longText).edit.run.run .empty = (.ok 1, pool)) ∧
      ¬ (empty.extend [.text longText]).ReadBack :=
  ⟨⟨_, text_empty longText⟩, not_readBack_of_long maxCount_lt_longText⟩

end ClassWeaver.ClassFile.ConstantPool
