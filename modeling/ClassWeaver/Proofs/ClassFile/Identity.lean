import ClassWeaver.Proofs.Attempt
import ClassWeaver.Proofs.ClassFile.Spelling
import ClassWeaver.Proofs.Text.ModifiedUtf8

/-!
Which class files are written back byte for byte.

Two things are forgotten when a class file is read: a declared slot count of zero, which reads as
the empty pool, and the spelling of texts that are not canonical. `bytes_eq_input_iff` says that
there is nothing else. To say which bytes the texts were read from, `rawTexts` walks through the
pool by tags and lengths alone.
-/

set_option autoImplicit false
set_option relaxedAutoImplicit false

namespace ClassWeaver.ClassFile

open ClassWeaver.Parser Text

/-! ### The raw texts of a pool -/

/-- The number of slots that the constant pool declares, behind the magic number and versions. -/
def declaredCount (input : Bytes) : UInt16 :=
  match input.drop 8 with
  | a :: b :: _ => word16 a b
  | _ => 0

/-- The number of bytes behind the tag of an entry that is not a text. -/
def payload (tag : UInt8) : Nat :=
  match tag.toNat with
  | 5 | 6 => 8
  | 7 | 8 | 16 | 19 | 20 => 2
  | 15 => 3
  | _ => 4

/-- The bytes of the texts among the entries that fill `room` slots. A text stands behind its tag
and its length; an entry under the tags 5 and 6 fills two slots. -/
def rawTextsFrom : (room : Nat) → Bytes → List Bytes
  | 0, _ => []
  | _, [] => []
  | room + 1, tag :: rest =>
    if tag = 1 then
      match rest with
      | a :: b :: rest =>
        rest.take (word16 a b).toNat :: rawTextsFrom room (rest.drop (word16 a b).toNat)
      | _ => []
    else if tag = 5 ∨ tag = 6 then
      match room with
      | 0 => []
      | room + 1 => rawTextsFrom room (rest.drop 8)
    else rawTextsFrom room (rest.drop (payload tag))

/-- The bytes that the texts of a class file were read from. -/
def rawTexts (input : Bytes) : List Bytes :=
  rawTextsFrom ((declaredCount input).toNat - 1) (input.drop 10)

theorem rawTextsFrom_text (room : Nat) (a b : UInt8) (rest : Bytes) :
    rawTextsFrom (room + 1) (1 :: a :: b :: rest) =
      rest.take (word16 a b).toNat :: rawTextsFrom room (rest.drop (word16 a b).toNat) := by
  rw [rawTextsFrom.eq_def]
  rfl

theorem rawTextsFrom_narrow {tag : UInt8} (hother : tag ≠ 1) (hnarrow : ¬ (tag = 5 ∨ tag = 6))
    (room : Nat) (rest : Bytes) :
    rawTextsFrom (room + 1) (tag :: rest) = rawTextsFrom room (rest.drop (payload tag)) := by
  rw [rawTextsFrom.eq_def]
  simp only [if_neg hother, if_neg hnarrow]

theorem rawTextsFrom_wide {tag : UInt8} (hwide : tag = 5 ∨ tag = 6) (room : Nat) (rest : Bytes) :
    rawTextsFrom (room + 2) (tag :: rest) = rawTextsFrom room (rest.drop 8) := by
  rw [rawTextsFrom.eq_def]
  rcases hwide with rfl | rfl <;> rfl

/-! ### Entries -/

/-- The bytes that an entry was read from, and the texts among them. -/
inductive Spelled : Bytes → Constant → List Bytes → Prop
  | text {length : UInt16} {encoded : Bytes} {text : String}
      (hlength : encoded.length = length.toNat)
      (hdecode : ModifiedUtf8.decode encoded = some text) :
      Spelled (1 :: bytes16 length ++ encoded) (.utf8 text) [encoded]
  | other {tag : UInt8} {content : Bytes} {entry : Constant} (htag : tag ≠ 1)
      (hbytes : entry.bytes = tag :: content) (hlength : content.length = payload tag)
      (hwide : entry.isWide = true ↔ tag = 5 ∨ tag = 6) : Spelled (tag :: content) entry []

namespace Spelled

variable {raw : Bytes} {entry : Constant} {texts : List Bytes}

theorem length_le (h : Spelled raw entry texts) : entry.bytes.length ≤ raw.length := by
  cases h with
  | text hlength hdecode =>
    have hle := ModifiedUtf8.length_encode_le hdecode
    simp only [Constant.bytes, List.length_cons, List.length_append, length_bytes16]
    omega
  | other _ hbytes => exact Nat.le_of_eq (congrArg List.length hbytes)

/-- An entry is written as it was read if its text is canonical. -/
theorem bytes_eq_iff (h : Spelled raw entry texts) :
    entry.bytes = raw ↔ ∀ text ∈ texts, ModifiedUtf8.Canonical text := by
  cases h with
  | @text length encoded text hlength hdecode =>
    rw [List.forall_mem_singleton, ← ModifiedUtf8.encode_eq_iff hdecode, Constant.bytes]
    constructor
    · intro hbytes
      exact (List.append_inj hbytes rfl).2
    · intro hencode
      rw [hencode, hlength, UInt16.ofNat_toNat]
  | other _ hbytes => exact iff_of_true hbytes (by simp)

/-- The walk through the pool goes from one entry to the next. -/
theorem rawTextsFrom_narrow (h : Spelled raw entry texts) (hnarrow : entry.isWide = false)
    (room : Nat) (rest : Bytes) :
    rawTextsFrom (room + 1) (raw ++ rest) = texts ++ rawTextsFrom room rest := by
  cases h with
  | @text length encoded text hlength hdecode =>
    have hword : (word16 (UInt8.ofNat (length.toNat / 256)) (UInt8.ofNat length.toNat)).toNat =
        encoded.length := by
      rw [word16_bytes16, hlength]
    refine (rawTextsFrom_text room _ _ (encoded ++ rest)).trans ?_
    rw [hword, List.take_left, List.drop_left]
    rfl
  | @other tag content _ htag _ hlength hwide =>
    have hone : ¬ (tag = 5 ∨ tag = 6) := fun htwo ↦ by simp [hwide.mpr htwo] at hnarrow
    rw [List.cons_append, ClassFile.rawTextsFrom_narrow htag hone, ← hlength, List.drop_left,
      List.nil_append]

theorem rawTextsFrom_wide (h : Spelled raw entry texts) (hwide : entry.isWide = true)
    (room : Nat) (rest : Bytes) :
    rawTextsFrom (room + 2) (raw ++ rest) = texts ++ rawTextsFrom room rest := by
  cases h with
  | text => cases hwide
  | @other tag content _ htag _ hlength hiff =>
    have htwo := hiff.mp hwide
    have hpayload : payload tag = 8 := by
      rcases htwo with rfl | rfl <;> rfl
    rw [List.cons_append, ClassFile.rawTextsFrom_wide htwo, ← hpayload, ← hlength, List.drop_left,
      List.nil_append]

end Spelled

/-- An entry that is no text, told by the number of its tag. -/
theorem exists_spelled {tag : UInt8} {number : Nat} {input content rest : Bytes} {entry : Constant}
    (hnumber : tag.toNat = number) (hinput : input = content ++ rest)
    (htag : UInt8.ofNat number ≠ 1) (hbytes : entry.bytes = UInt8.ofNat number :: content)
    (hlength : content.length = payload (UInt8.ofNat number))
    (hwide : entry.isWide = true ↔ UInt8.ofNat number = 5 ∨ UInt8.ofNat number = 6) :
    ∃ raw texts, [tag] ++ input = raw ++ rest ∧ Spelled raw entry texts := by
  obtain rfl : tag = UInt8.ofNat number := by rw [← hnumber, UInt8.ofNat_toNat]
  subst hinput
  exact ⟨_ :: content, [], rfl, .other htag hbytes hlength hwide⟩

theorem eq_append_of_words {input middle rest : Bytes} {first second : UInt16}
    (hfirst : Reader.u2 input = .ok (first, middle))
    (hsecond : Reader.u2 middle = .ok (second, rest)) :
    input = (bytes16 first ++ bytes16 second) ++ rest := by
  rw [spells_u2 _ _ _ _ hfirst, spells_u2 _ _ _ _ hsecond, List.append_assoc]

/-- An entry is read from its tag and from what the tag announces. -/
theorem constant_eq_ok {input rest : Bytes} {entry : Constant}
    (h : Reader.constant input = .ok (entry, rest)) :
    ∃ raw texts, input = raw ++ rest ∧ Spelled raw entry texts := by
  obtain ⟨tag, middle, htag, h⟩ := bind_eq_ok.mp h
  rw [spells_u1 _ _ _ _ htag]
  generalize hnumber : tag.toNat = number at h
  split at h
  case h_1 =>
    obtain ⟨length, afterLength, hlength, h⟩ := bind_eq_ok.mp h
    obtain ⟨encoded, last, hencoded, h⟩ := bind_eq_ok.mp h
    cases hdecode : ModifiedUtf8.decode encoded with
    | none =>
      rw [hdecode] at h
      exact absurd h throw_ne_ok
    | some text =>
      rw [hdecode] at h
      obtain ⟨rfl, rfl⟩ := pure_eq_ok.mp h
      obtain ⟨htaken, hcount⟩ := take_eq_ok hencoded
      obtain rfl : tag = 1 := UInt8.toNat_inj.mp hnumber
      refine ⟨_, _, ?_, .text hcount hdecode⟩
      rw [spells_u2 _ _ _ _ hlength, htaken, List.cons_append, List.append_assoc]
      rfl
  case h_2 | h_3 =>
    obtain ⟨word, last, hword, h⟩ := bind_eq_ok.mp h
    obtain ⟨rfl, rfl⟩ := pure_eq_ok.mp h
    exact exists_spelled hnumber (spells_u4 _ _ _ _ hword) (by decide) rfl rfl
      (iff_of_false Bool.false_ne_true (by decide))
  case h_4 | h_5 =>
    obtain ⟨word, last, hword, h⟩ := bind_eq_ok.mp h
    obtain ⟨rfl, rfl⟩ := pure_eq_ok.mp h
    exact exists_spelled hnumber (Reader.spells_u8 _ _ _ hword) (by decide) rfl rfl
      (iff_of_true rfl (by decide))
  case h_6 | h_7 | h_13 | h_16 | h_17 =>
    obtain ⟨word, last, hword, h⟩ := bind_eq_ok.mp h
    obtain ⟨rfl, rfl⟩ := pure_eq_ok.mp h
    exact exists_spelled hnumber (spells_u2 _ _ _ _ hword) (by decide) rfl rfl
      (iff_of_false Bool.false_ne_true (by decide))
  case h_8 | h_9 | h_10 | h_11 | h_14 | h_15 =>
    obtain ⟨first, afterFirst, hfirst, h⟩ := bind_eq_ok.mp h
    obtain ⟨second, last, hsecond, h⟩ := bind_eq_ok.mp h
    obtain ⟨rfl, rfl⟩ := pure_eq_ok.mp h
    exact exists_spelled hnumber (eq_append_of_words hfirst hsecond) (by decide) rfl rfl
      (iff_of_false Bool.false_ne_true (by decide))
  case h_12 =>
    obtain ⟨kind, afterKind, hkind, h⟩ := bind_eq_ok.mp h
    obtain ⟨reference, last, hreference, h⟩ := bind_eq_ok.mp h
    have hcontent : middle = (kind :: bytes16 reference) ++ last := by
      rw [spells_u1 _ _ _ _ hkind, spells_u2 _ _ _ _ hreference]
      rfl
    obtain ⟨rfl, rfl⟩ := pure_eq_ok.mp h
    exact exists_spelled hnumber hcontent (by decide) rfl rfl
      (iff_of_false Bool.false_ne_true (by decide))
  case h_18 => exact absurd h throw_ne_ok

/-! ### The pool -/

/-- The entries in some slots, as they are written. -/
def slotsBytes (slots : List (Option Constant)) : Bytes :=
  (slots.filterMap id).flatMap Constant.bytes

theorem slotsBytes_append (entry : Constant) (others : List (Option Constant)) :
    slotsBytes (entry.slots ++ others) = entry.bytes ++ slotsBytes others := by
  rw [Constant.slots]
  split <;> simp [slotsBytes]

/-- What was read from `raw`: slots that are written in no more bytes, and in the same ones exactly
if all texts are canonical. -/
structure Fills (slots : List (Option Constant)) (room : Nat) (raw rest : Bytes) : Prop where
  length_eq : slots.length = room
  length_le : (slotsBytes slots).length ≤ raw.length
  bytes_eq_iff : slotsBytes slots = raw ↔
    ∀ text ∈ rawTextsFrom room (raw ++ rest), ModifiedUtf8.Canonical text

/-- An entry in front of others. -/
theorem Fills.cons {entry : Constant} {raw others rest : Bytes} {texts : List Bytes}
    {slots : List (Option Constant)} {room : Nat} (hentry : Spelled raw entry texts)
    (hfills : Fills slots room others rest) :
    Fills (entry.slots ++ slots) (entry.slots.length + room) (raw ++ others) rest := by
  have htexts : rawTextsFrom (entry.slots.length + room) (raw ++ others ++ rest) =
      texts ++ rawTextsFrom room (others ++ rest) := by
    rw [List.append_assoc, Nat.add_comm, Constant.slots]
    cases hwide : entry.isWide with
    | true => exact hentry.rawTextsFrom_wide hwide room _
    | false => exact hentry.rawTextsFrom_narrow hwide room _
  refine ⟨by rw [List.length_append, hfills.length_eq], ?_, ?_⟩
  · rw [slotsBytes_append, List.length_append, List.length_append]
    exact Nat.add_le_add hentry.length_le hfills.length_le
  · rw [slotsBytes_append, htexts, List.forall_mem_append, ← hentry.bytes_eq_iff,
      ← hfills.bytes_eq_iff]
    exact append_eq_append_iff_of_length_le hentry.length_le hfills.length_le

theorem fills_nil (rest : Bytes) : Fills [] 0 [] rest :=
  ⟨rfl, Nat.le_refl 0, iff_of_true rfl (by simp [rawTextsFrom])⟩

theorem length_slots (entry : Constant) : entry.slots.length = if entry.isWide then 2 else 1 := by
  rw [Constant.slots]
  split <;> rfl

/-- Slots are filled entry by entry, and a wide entry takes the slot behind it as well. -/
theorem constants_eq_ok {declared : UInt16} {room : Nat} {input rest : Bytes}
    {slots : List (Option Constant)}
    (h : Reader.constants declared room input = .ok (slots, rest)) :
    ∃ raw, input = raw ++ rest ∧ Fills slots room raw rest := by
  induction room using Reader.constants.induct generalizing input slots with
  | case1 =>
    obtain ⟨rfl, rfl⟩ := pure_eq_ok.mp h
    exact ⟨[], rfl, fills_nil _⟩
  | case2 =>
    obtain ⟨entry, middle, hentry, h⟩ := bind_eq_ok.mp h
    obtain ⟨raw, texts, hinput, hspelled⟩ := constant_eq_ok hentry
    have hfills := (fills_nil middle).cons hspelled
    rw [length_slots] at hfills
    cases hwide : entry.isWide with
    | true =>
      rw [hwide] at h
      exact absurd h throw_bind_ne_ok
    | false =>
      rw [hwide] at h hfills
      obtain ⟨rfl, rfl⟩ := pure_eq_ok.mp h
      rw [List.append_nil, List.append_nil] at hfills
      exact ⟨raw, hinput, hfills⟩
  | case3 room ihWide ihNarrow =>
    obtain ⟨entry, middle, hentry, h⟩ := bind_eq_ok.mp h
    obtain ⟨raw, texts, hinput, hspelled⟩ := constant_eq_ok hentry
    cases hwide : entry.isWide with
    | true =>
      rw [hwide] at h
      obtain ⟨others, last, hothers, h⟩ := bind_eq_ok.mp h
      obtain ⟨rfl, rfl⟩ := pure_eq_ok.mp h
      obtain ⟨back, hback, hfills⟩ := ihWide hothers
      have hall := hfills.cons hspelled
      rw [length_slots, hwide, if_pos rfl, Nat.add_comm] at hall
      exact ⟨raw ++ back, by rw [hinput, hback, List.append_assoc], hall⟩
    | false =>
      rw [hwide] at h
      obtain ⟨others, last, hothers, h⟩ := bind_eq_ok.mp h
      obtain ⟨rfl, rfl⟩ := pure_eq_ok.mp h
      obtain ⟨back, hback, hfills⟩ := ihNarrow hothers
      have hall := hfills.cons hspelled
      rw [length_slots, hwide, if_neg Bool.false_ne_true, Nat.add_comm] at hall
      exact ⟨raw ++ back, by rw [hinput, hback, List.append_assoc], hall⟩

/-- The pool is written as it was read if it was declared to have a slot and all texts are
canonical. -/
theorem constantPool_eq_ok {input rest : Bytes} {pool : ConstantPool}
    (h : Reader.constantPool input = .ok (pool, rest)) :
    ∃ declared raw, input = bytes16 declared ++ raw ++ rest ∧
      (pool.bytes = bytes16 declared ++ raw ↔ declared ≠ 0 ∧
        ∀ text ∈ rawTextsFrom (declared.toNat - 1) (raw ++ rest), ModifiedUtf8.Canonical text) := by
  obtain ⟨declared, middle, hdeclared, h⟩ := bind_eq_ok.mp h
  obtain ⟨entries, last, hentries, h⟩ := bind_eq_ok.mp h
  obtain ⟨rfl, rfl⟩ := pure_eq_ok.mp h
  obtain ⟨raw, rfl, hfills⟩ := constants_eq_ok hentries
  refine ⟨declared, raw, by rw [spells_u2 _ _ _ _ hdeclared, List.append_assoc], ?_⟩
  have hcount : ConstantPool.count ⟨(none :: entries).toArray⟩ = declared ↔ declared ≠ 0 := by
    have hlt := declared.toNat_lt
    have hsize : (none :: entries).toArray.size = declared.toNat - 1 + 1 := by
      rw [List.size_toArray, List.length_cons, hfills.length_eq]
    rw [ConstantPool.count, hsize, ← UInt16.toNat_inj, UInt16.toNat_ofNat', ne_eq,
      ← UInt16.toNat_inj]
    change _ ↔ ¬ declared.toNat = 0
    omega
  rw [← hfills.bytes_eq_iff, ← hcount, ← bytes16_inj]
  exact append_eq_append_iff_of_length_le (Nat.le_refl 2) hfills.length_le

/-! ### Classes -/

/-- Around its pool a class is written as it was read. -/
theorem classFile_eq_ok {depth : Nat} {input rest : Bytes} {file : ClassFile}
    (h : Reader.classFile depth input = .ok (file, rest)) :
    ∃ declared raw tail,
      input = bytes32 magic ++ bytes16 file.minor ++ bytes16 file.major ++
        (bytes16 declared ++ raw) ++ (tail ++ rest) ∧
      file.bytes = bytes32 magic ++ bytes16 file.minor ++ bytes16 file.major ++
        file.pool.bytes ++ tail ∧
      (file.pool.bytes = bytes16 declared ++ raw ↔ declared ≠ 0 ∧
        ∀ text ∈ rawTextsFrom (declared.toNat - 1) (raw ++ (tail ++ rest)),
          ModifiedUtf8.Canonical text) := by
  obtain ⟨found, afterMagic, hmagic, h⟩ := bind_eq_ok.mp h
  by_cases hfound : found ≠ magic
  · rw [if_pos hfound] at h
    exact absurd h throw_bind_ne_ok
  rw [if_neg hfound] at h
  obtain ⟨minor, afterMinor, hminor, h⟩ := bind_eq_ok.mp h
  obtain ⟨major, afterMajor, hmajor, h⟩ := bind_eq_ok.mp h
  obtain ⟨pool, afterPool, hpool, h⟩ := bind_eq_ok.mp h
  obtain ⟨access, afterAccess, haccess, h⟩ := bind_eq_ok.mp h
  obtain ⟨thisClass, afterThis, hthis, h⟩ := bind_eq_ok.mp h
  obtain ⟨superClass, afterSuper, hsuper, h⟩ := bind_eq_ok.mp h
  obtain ⟨interfaces, afterInterfaces, hinterfaces, h⟩ := bind_eq_ok.mp h
  obtain ⟨fields, afterFields, hfields, h⟩ := bind_eq_ok.mp h
  obtain ⟨methods, afterMethods, hmethods, h⟩ := bind_eq_ok.mp h
  obtain ⟨attributes, last, hattributes, h⟩ := bind_eq_ok.mp h
  obtain ⟨rfl, rfl⟩ := pure_eq_ok.mp h
  obtain ⟨declared, raw, hsplit, hiff⟩ := constantPool_eq_ok hpool
  have htail : afterPool = (bytes16 access ++ bytes16 thisClass ++ bytes16 superClass ++
      countedBytes bytes16 interfaces ++ countedBytes Member.bytes fields ++
      countedBytes Member.bytes methods ++ countedBytes Attribute.bytes attributes) ++ last := by
    rw [spells_u2 _ _ _ _ haccess, spells_u2 _ _ _ _ hthis, spells_u2 _ _ _ _ hsuper,
      Reader.spells_counted (spells_u2 _) _ _ _ hinterfaces,
      Reader.spells_counted (Reader.spells_member pool depth) _ _ _ hfields,
      Reader.spells_counted (Reader.spells_member pool depth) _ _ _ hmethods,
      Reader.spells_attributes pool depth _ _ _ hattributes]
    simp only [List.append_assoc]
  refine ⟨declared, raw, _, ?_, ?_, htail ▸ hiff⟩
  · rw [spells_u4 _ _ _ _ hmagic, spells_u2 _ _ _ _ hminor, spells_u2 _ _ _ _ hmajor, hsplit,
      htail, not_ne_iff.mp hfound]
    simp only [List.append_assoc]
  · simp only [ClassFile.bytes, List.append_assoc]

/-- A class that was read is written byte for byte as it was exactly if its pool was declared to
have a slot and every text was spelled canonically, that is as it is spelled when it is encoded. -/
theorem bytes_eq_input_iff {input : Bytes} {file : ClassFile} (h : parse input = .ok file) :
    (file.bytes = input ↔
      declaredCount input ≠ 0 ∧ ∀ raw ∈ rawTexts input, ModifiedUtf8.Canonical raw) ∧
    ∀ raw ∈ rawTexts input, ModifiedUtf8.Canonical raw ↔
      (ModifiedUtf8.decode raw).map ModifiedUtf8.encode = some raw := by
  refine ⟨?_, fun raw _ ↦ ModifiedUtf8.canonical_iff⟩
  obtain ⟨⟨read, rest⟩, hread, h⟩ := except_bind_eq_ok.mp h
  dsimp only at h
  split at h
  · rename_i hused
    cases h
    obtain rfl := List.isEmpty_iff.mp hused
    obtain ⟨declared, raw, tail, hinput, hbytes, hiff⟩ := classFile_eq_ok hread
    rw [List.append_nil] at hinput hiff
    have hcount : declaredCount input = declared := by
      rw [hinput]
      exact word16_bytes16 declared
    have htexts : rawTexts input = rawTextsFrom (declared.toNat - 1) (raw ++ tail) := by
      rw [rawTexts, hcount, hinput]
      simp only [List.append_assoc]
      rfl
    rw [hcount, htexts, ← hiff]
    conv_lhs => rw [hinput, hbytes, List.append_left_inj, List.append_right_inj]
  · cases h

/-- A class with a text of one character in two bytes, where one would have been enough. -/
theorem bytes_ne_of_overlong :
    ∃ file, parse [0xCA, 0xFE, 0xBA, 0xBE, 0, 0, 0, 52, 0, 2, 1, 0, 2, 0xC1, 0x81,
        0, 0, 0, 0, 0, 0, 0, 0, 0, 0, 0, 0, 0, 0] = .ok file ∧
      file.bytes ≠ [0xCA, 0xFE, 0xBA, 0xBE, 0, 0, 0, 52, 0, 2, 1, 0, 2, 0xC1, 0x81,
        0, 0, 0, 0, 0, 0, 0, 0, 0, 0, 0, 0, 0, 0] := by
  refine ⟨_, rfl, fun hsame ↦ ?_⟩
  have hcanonical := ((bytes_eq_input_iff rfl).1.mp hsame).2 [0xC1, 0x81] (by decide)
  have hunit := ((ModifiedUtf8.shortest_two_iff (by decide) (by decide)).mp hcanonical.1).1
  exact absurd hunit (by decide)

end ClassWeaver.ClassFile
