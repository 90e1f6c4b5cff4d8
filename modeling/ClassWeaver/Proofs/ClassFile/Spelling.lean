import ClassWeaver.ClassFile.Parser
import ClassWeaver.Proofs.Parsing

/-!
What is read from a class file is written with the bytes that it was read from.

This holds for every item behind the constant pool, frames in their extended forms and attributes
without a meaning included, because each reader accepts a single spelling of what it gives
(`Parser.Spells`). Only the texts in the pool have several spellings; they are left to
`ClassWeaver.Proofs.ClassFile.Identity`.
-/

set_option autoImplicit false
set_option relaxedAutoImplicit false

namespace ClassWeaver

theorem bytes16_inj {first second : UInt16} : bytes16 first = bytes16 second ↔ first = second := by
  constructor
  · intro h
    obtain ⟨hhigh, hlow, -⟩ : _ ∧ _ ∧ _ := by simpa only [bytes16, List.cons.injEq] using h
    rw [← word16_bytes16 first, ← word16_bytes16 second, hhigh, hlow]
  · exact congrArg bytes16

namespace ClassFile.Reader

open ClassWeaver.Parser

/-! ### Numbers and lists -/

theorem spells_u8 : Spells u8 bytes64 := by
  intro input value rest h
  obtain ⟨high, middle, hhigh, h⟩ := bind_eq_ok.mp h
  obtain ⟨low, last, hlow, h⟩ := bind_eq_ok.mp h
  obtain ⟨rfl, rfl⟩ := pure_eq_ok.mp h
  rw [spells_u4 _ _ _ _ hhigh, spells_u4 _ _ _ _ hlow, ← List.append_assoc]
  have hhighLt := high.toNat_lt
  have hlowLt := low.toNat_lt
  have hvalue : (word64 high low).toNat = high.toNat * 4294967296 + low.toNat :=
    UInt64.toNat_ofNat_of_lt' (show _ < 18446744073709551616 by omega)
  have hfirst : UInt32.ofNat ((word64 high low).toNat / 4294967296) = high := by
    rw [hvalue, show (high.toNat * 4294967296 + low.toNat) / 4294967296 = high.toNat by omega,
      UInt32.ofNat_toNat]
  have hsecond : UInt32.ofNat (word64 high low).toNat = low := by
    apply UInt32.toNat_inj.mp
    rw [hvalue, UInt32.toNat_ofNat']
    omega
  rw [bytes64, hfirst, hsecond]

theorem spells_counted {α : Type} {item : Reader α} {print : α → Bytes}
    (hitem : Spells item print) : Spells (counted item) (countedBytes print) := by
  intro input values rest h
  obtain ⟨count, middle, hcount, h⟩ := bind_eq_ok.mp h
  rw [spells_u2 _ _ _ _ hcount, spells_times hitem _ _ _ _ h, countedBytes, length_of_times h,
    UInt16.ofNat_toNat, List.append_assoc]

/-! ### Stack maps -/

theorem spells_verificationType : Spells verificationType VerificationType.bytes := by
  intro input value rest h
  obtain ⟨tag, middle, htag, h⟩ := bind_eq_ok.mp h
  rw [spells_u1 _ _ _ _ htag]
  generalize hnumber : tag.toNat = number at h
  split at h
  case h_8 =>
    obtain ⟨index, last, hindex, h⟩ := bind_eq_ok.mp h
    obtain ⟨rfl, rfl⟩ := pure_eq_ok.mp h
    obtain rfl : tag = 7 := UInt8.toNat_inj.mp hnumber
    rw [spells_u2 _ _ _ _ hindex]
    rfl
  case h_9 =>
    obtain ⟨offset, last, hoffset, h⟩ := bind_eq_ok.mp h
    obtain ⟨rfl, rfl⟩ := pure_eq_ok.mp h
    obtain rfl : tag = 8 := UInt8.toNat_inj.mp hnumber
    rw [spells_u2 _ _ _ _ hoffset]
    rfl
  case h_10 => exact absurd h throw_ne_ok
  -- The other types are nothing but their tag.
  all_goals
    obtain ⟨rfl, rfl⟩ := pure_eq_ok.mp h
    exact congrArg (· :: _) (UInt8.toNat_inj.mp hnumber)

/-- The offset in the tag of a compact frame. -/
theorem toUInt8_toUInt16 (byte : UInt8) : byte.toUInt16.toUInt8 = byte := by
  apply UInt8.toNat_inj.mp
  rw [UInt16.toNat_toUInt8, UInt8.toNat_toUInt16]
  exact Nat.mod_eq_of_lt byte.toNat_lt

theorem toUInt16_le_compactDelta {byte : UInt8} (h : byte.toNat ≤ 63) :
    byte.toUInt16 ≤ compactDelta :=
  UInt16.le_iff_toNat_le.mpr (by rwa [UInt8.toNat_toUInt16])

/-- The type of a frame tells its form, also where its offset would have fitted into a smaller
one. -/
theorem spells_stackMapFrame : Spells stackMapFrame StackMapFrame.bytes := by
  intro input frame rest h
  obtain ⟨type, middle, htype, h⟩ := bind_eq_ok.mp h
  rw [spells_u1 _ _ _ _ htype]
  have hlt := type.toNat_lt
  by_cases hsame : type ≤ 63
  · rw [if_pos hsame] at h
    obtain ⟨rfl, rfl⟩ := pure_eq_ok.mp h
    have hle := UInt8.le_iff_toNat_le.mp hsame
    rw [StackMapFrame.bytes, if_pos (toUInt16_le_compactDelta hle), toUInt8_toUInt16]
  rw [if_neg hsame] at h
  by_cases hlocals : type ≤ 127
  · rw [if_pos hlocals] at h
    obtain ⟨stack, last, hstack, h⟩ := bind_eq_ok.mp h
    obtain ⟨rfl, rfl⟩ := pure_eq_ok.mp h
    have hgt : 63 < type.toNat := UInt8.lt_iff_toNat_lt.mp (UInt8.not_le.mp hsame)
    have hle : type.toNat ≤ 127 := UInt8.le_iff_toNat_le.mp hlocals
    have hge : (64 : UInt8) ≤ type := UInt8.le_iff_toNat_le.mpr hgt
    have hdelta : (type - 64).toNat ≤ 63 := by
      rw [UInt8.toNat_sub_of_le _ _ hge]
      exact Nat.sub_le_of_le_add hle
    rw [StackMapFrame.bytes, if_pos (toUInt16_le_compactDelta hdelta), toUInt8_toUInt16,
      spells_verificationType _ _ _ hstack, UInt8.add_comm, UInt8.sub_add_cancel]
    rfl
  rw [if_neg hlocals] at h
  by_cases hreserved : type ≤ 246
  · rw [if_pos hreserved] at h
    exact absurd h throw_ne_ok
  rw [if_neg hreserved] at h
  by_cases hextended : type = 247
  · rw [if_pos hextended] at h
    obtain ⟨delta, afterDelta, hdelta, h⟩ := bind_eq_ok.mp h
    obtain ⟨stack, last, hstack, h⟩ := bind_eq_ok.mp h
    obtain ⟨rfl, rfl⟩ := pure_eq_ok.mp h
    subst hextended
    rw [spells_u2 _ _ _ _ hdelta, spells_verificationType _ _ _ hstack]
    simp [StackMapFrame.bytes]
  rw [if_neg hextended] at h
  by_cases hchop : type ≤ 250
  · rw [if_pos hchop] at h
    obtain ⟨delta, last, hdelta, h⟩ := bind_eq_ok.mp h
    obtain ⟨rfl, rfl⟩ := pure_eq_ok.mp h
    rw [spells_u2 _ _ _ _ hdelta, StackMapFrame.bytes]
    rw [show 251 - (251 - type) = type by grind]
    rfl
  rw [if_neg hchop] at h
  by_cases hsameExtended : type = 251
  · rw [if_pos hsameExtended] at h
    obtain ⟨delta, last, hdelta, h⟩ := bind_eq_ok.mp h
    obtain ⟨rfl, rfl⟩ := pure_eq_ok.mp h
    subst hsameExtended
    rw [spells_u2 _ _ _ _ hdelta]
    rfl
  rw [if_neg hsameExtended] at h
  by_cases happend : type ≤ 254
  · rw [if_pos happend] at h
    obtain ⟨delta, afterDelta, hdelta, h⟩ := bind_eq_ok.mp h
    obtain ⟨locals, last, hlocalsRead, h⟩ := bind_eq_ok.mp h
    obtain ⟨rfl, rfl⟩ := pure_eq_ok.mp h
    have hgt : 250 < type.toNat := UInt8.lt_iff_toNat_lt.mp (UInt8.not_le.mp hchop)
    have hcount : 251 + UInt8.ofNat locals.length = type := by
      apply UInt8.toNat_inj.mp
      rw [length_of_times hlocalsRead, UInt8.toNat_add, UInt8.toNat_ofNat']
      change (251 + (type.toNat - 251) % 256) % 256 = type.toNat
      omega
    rw [spells_u2 _ _ _ _ hdelta, spells_times spells_verificationType _ _ _ _ hlocalsRead,
      StackMapFrame.bytes, hcount]
    simp
  · rw [if_neg happend] at h
    obtain ⟨delta, afterDelta, hdelta, h⟩ := bind_eq_ok.mp h
    obtain ⟨locals, afterLocals, hlocalsRead, h⟩ := bind_eq_ok.mp h
    obtain ⟨stack, last, hstack, h⟩ := bind_eq_ok.mp h
    obtain ⟨rfl, rfl⟩ := pure_eq_ok.mp h
    have hgt : 254 < type.toNat := UInt8.lt_iff_toNat_lt.mp (UInt8.not_le.mp happend)
    have hfull : type = 255 := UInt8.toNat_inj.mp (show type.toNat = 255 by omega)
    rw [spells_u2 _ _ _ _ hdelta, spells_counted spells_verificationType _ _ _ hlocalsRead,
      spells_counted spells_verificationType _ _ _ hstack, StackMapFrame.bytes, hfull]
    simp

/-! ### Rows -/

theorem spells_exceptionHandler : Spells exceptionHandler ExceptionHandler.bytes := by
  intro input row rest h
  obtain ⟨start, afterStart, hstart, h⟩ := bind_eq_ok.mp h
  obtain ⟨stop, afterStop, hstop, h⟩ := bind_eq_ok.mp h
  obtain ⟨handler, afterHandler, hhandler, h⟩ := bind_eq_ok.mp h
  obtain ⟨catchType, last, hcatchType, h⟩ := bind_eq_ok.mp h
  obtain ⟨rfl, rfl⟩ := pure_eq_ok.mp h
  rw [spells_u2 _ _ _ _ hstart, spells_u2 _ _ _ _ hstop, spells_u2 _ _ _ _ hhandler,
    spells_u2 _ _ _ _ hcatchType]
  simp only [ExceptionHandler.bytes, List.append_assoc]

theorem spells_lineNumber : Spells lineNumber LineNumber.bytes := by
  intro input row rest h
  obtain ⟨start, middle, hstart, h⟩ := bind_eq_ok.mp h
  obtain ⟨line, last, hline, h⟩ := bind_eq_ok.mp h
  obtain ⟨rfl, rfl⟩ := pure_eq_ok.mp h
  rw [spells_u2 _ _ _ _ hstart, spells_u2 _ _ _ _ hline, LineNumber.bytes, List.append_assoc]

theorem spells_localVariable : Spells localVariable LocalVariable.bytes := by
  intro input row rest h
  obtain ⟨start, afterStart, hstart, h⟩ := bind_eq_ok.mp h
  obtain ⟨length, afterLength, hlength, h⟩ := bind_eq_ok.mp h
  obtain ⟨name, afterName, hname, h⟩ := bind_eq_ok.mp h
  obtain ⟨type, afterType, htype, h⟩ := bind_eq_ok.mp h
  obtain ⟨index, last, hindex, h⟩ := bind_eq_ok.mp h
  obtain ⟨rfl, rfl⟩ := pure_eq_ok.mp h
  rw [spells_u2 _ _ _ _ hstart, spells_u2 _ _ _ _ hlength, spells_u2 _ _ _ _ hname,
    spells_u2 _ _ _ _ htype, spells_u2 _ _ _ _ hindex]
  simp only [LocalVariable.bytes, List.append_assoc]

/-! ### Attributes -/

section Nested

variable {nested : Reader (List Attribute)}

theorem spells_methodBody (hnested : Spells nested (countedBytes Attribute.bytes)) :
    Spells (methodBody nested) MethodBody.bytes := by
  intro input body rest h
  obtain ⟨maxStack, afterStack, hstack, h⟩ := bind_eq_ok.mp h
  obtain ⟨maxLocals, afterLocals, hlocals, h⟩ := bind_eq_ok.mp h
  obtain ⟨length, afterLength, hlength, h⟩ := bind_eq_ok.mp h
  obtain ⟨code, afterCode, hcode, h⟩ := bind_eq_ok.mp h
  obtain ⟨handlers, afterHandlers, hhandlers, h⟩ := bind_eq_ok.mp h
  obtain ⟨attributes, last, hattributes, h⟩ := bind_eq_ok.mp h
  obtain ⟨rfl, rfl⟩ := pure_eq_ok.mp h
  obtain ⟨rfl, hcount⟩ := take_eq_ok hcode
  rw [spells_u2 _ _ _ _ hstack, spells_u2 _ _ _ _ hlocals, spells_u4 _ _ _ _ hlength,
    spells_counted spells_exceptionHandler _ _ _ hhandlers, hnested _ _ _ hattributes,
    MethodBody.bytes, hcount, UInt32.ofNat_toNat, attributesBytes_eq_flatMap]
  simp only [countedBytes, List.append_assoc]

theorem spells_attributeContent (hnested : Spells nested (countedBytes Attribute.bytes))
    (title : String) : Spells (attributeContent nested title) AttributeContent.bytes := by
  unfold attributeContent
  split
  · exact (spells_u2 _).map fun _ ↦ rfl
  · exact (spells_methodBody hnested).map fun _ ↦ rfl
  · exact (spells_counted spells_stackMapFrame).map fun _ ↦ rfl
  · exact (spells_counted (spells_u2 _)).map fun _ ↦ rfl
  · exact (spells_u2 _).map fun _ ↦ rfl
  · exact (spells_u2 _).map fun _ ↦ rfl
  · exact (spells_counted spells_lineNumber).map fun _ ↦ rfl
  · exact (spells_counted spells_localVariable).map fun _ ↦ rfl
  · exact (spells_counted spells_localVariable).map fun _ ↦ rfl
  · exact spells_pure rfl
  · exact spells_pure rfl
  · intro input content rest h
    cases h
    exact (List.append_nil input).symm

/-- The length in front of an attribute is that of its content, which has used it up. -/
theorem spells_oneAttribute (pool : ConstantPool)
    (hnested : Spells nested (countedBytes Attribute.bytes)) :
    Spells (oneAttribute pool nested) Attribute.bytes := by
  intro input attr rest h
  obtain ⟨name, afterName, hname, h⟩ := bind_eq_ok.mp h
  obtain ⟨length, afterLength, hlength, h⟩ := bind_eq_ok.mp h
  obtain ⟨data, afterData, hdata, h⟩ := bind_eq_ok.mp h
  obtain ⟨title, last, htitle, h⟩ := bind_eq_ok.mp h
  obtain ⟨⟨content, unused⟩, final, hcontent, h⟩ := bind_eq_ok.mp h
  obtain ⟨-, rfl⟩ := lift_eq_ok.mp htitle
  obtain ⟨hread, rfl⟩ := lift_eq_ok.mp hcontent
  dsimp only at h
  split at h
  · rename_i hused
    obtain ⟨rfl, rfl⟩ := pure_eq_ok.mp h
    obtain ⟨rfl, hcount⟩ := take_eq_ok hdata
    have hspelled := spells_attributeContent hnested title _ _ _ hread
    rw [List.isEmpty_iff.mp hused, List.append_nil] at hspelled
    subst hspelled
    rw [spells_u2 _ _ _ _ hname, spells_u4 _ _ _ _ hlength, Attribute.bytes, hcount,
      UInt32.ofNat_toNat]
    simp only [List.append_assoc]
  · exact absurd h throw_ne_ok

end Nested

theorem spells_attributes (pool : ConstantPool) (depth : Nat) :
    Spells (attributes pool depth) (countedBytes Attribute.bytes) := by
  induction depth with
  | zero => exact fun _ _ _ h ↦ absurd h throw_ne_ok
  | succ depth ih => exact spells_counted (spells_oneAttribute pool ih)

theorem spells_member (pool : ConstantPool) (depth : Nat) :
    Spells (member pool depth) Member.bytes := by
  intro input value rest h
  obtain ⟨access, afterAccess, haccess, h⟩ := bind_eq_ok.mp h
  obtain ⟨name, afterName, hname, h⟩ := bind_eq_ok.mp h
  obtain ⟨descriptor, afterDescriptor, hdescriptor, h⟩ := bind_eq_ok.mp h
  obtain ⟨attributes, last, hattributes, h⟩ := bind_eq_ok.mp h
  obtain ⟨rfl, rfl⟩ := pure_eq_ok.mp h
  rw [spells_u2 _ _ _ _ haccess, spells_u2 _ _ _ _ hname, spells_u2 _ _ _ _ hdescriptor,
    spells_attributes pool depth _ _ _ hattributes]
  simp only [Member.bytes, List.append_assoc]

end ClassFile.Reader

end ClassWeaver
