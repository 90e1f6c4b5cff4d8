import ClassWeaver.Proofs.Parsing
import ClassWeaver.Text.ModifiedUtf8

/-!
Which byte strings modified UTF-8 gives back as they were.

Decoding forgets two things: how long the groups of bytes were, and which surrogates had no partner.
A byte string is canonical if there was nothing to forget, that is if no group is longer than its
unit needs and no surrogate stands alone. `canonical_iff` says that these are the byte strings that
are encoded as they were decoded. In no case is the encoded text longer (`length_encode_le`).
-/

set_option autoImplicit false
set_option relaxedAutoImplicit false

namespace ClassWeaver.Text

/-! ### Surrogates -/

/-- Every surrogate has its partner next to it, the high one in front. -/
def Paired : List UInt16 → Prop
  | [] => True
  | [unit] => ¬ (isHighSurrogate unit || isLowSurrogate unit)
  | unit :: next :: rest =>
    if isHighSurrogate unit && isLowSurrogate next then Paired rest
    else ¬ (isHighSurrogate unit || isLowSurrogate unit) ∧ Paired (next :: rest)

theorem toNat_charOfNat {n : Nat} (h : n.isValidChar) : (Char.ofNat n).toNat = n := by
  rw [Char.ofNat, dif_pos h]
  exact UInt32.toNat_ofNatLT

theorem units_replacement : units replacement = [0xFFFD] := by
  decide

/-- A unit that stands alone is written as itself, or as the replacement if it is a surrogate. -/
theorem units_loneCharacter (unit : UInt16) :
    units (loneCharacter unit) =
      [if isHighSurrogate unit || isLowSurrogate unit then 0xFFFD else unit] := by
  unfold loneCharacter
  by_cases hsurrogate : isHighSurrogate unit || isLowSurrogate unit
  · rw [if_pos hsurrogate, if_pos hsurrogate, units_replacement]
  · rw [if_neg hsurrogate, if_neg hsurrogate]
    have hlt := unit.toNat_lt
    simp only [isHighSurrogate, isLowSurrogate, Bool.or_eq_true, Bool.and_eq_true,
      decide_eq_true_eq] at hsurrogate
    have hvalid : unit.toNat.isValidChar := by
      unfold Nat.isValidChar
      omega
    rw [units, toNat_charOfNat hvalid, if_pos hlt, UInt16.ofNat_toNat]

/-- A pair of surrogates is written as itself. -/
theorem units_pairedCharacter {high low : UInt16}
    (h : (isHighSurrogate high && isLowSurrogate low) = true) :
    units (pairedCharacter high low) = [high, low] := by
  simp only [isHighSurrogate, isLowSurrogate, Bool.and_eq_true, decide_eq_true_eq] at h
  have hvalid : (0x10000 + (high.toNat - 0xD800) * 0x400 + (low.toNat - 0xDC00)).isValidChar := by
    unfold Nat.isValidChar
    omega
  rw [units, pairedCharacter, toNat_charOfNat hvalid, if_neg (by omega)]
  have hhigh : 0xD800 + (0x10000 + (high.toNat - 0xD800) * 0x400 + (low.toNat - 0xDC00) - 0x10000) /
      0x400 = high.toNat := by
    omega
  have hlow : 0xDC00 + (0x10000 + (high.toNat - 0xD800) * 0x400 + (low.toNat - 0xDC00) - 0x10000) %
      0x400 = low.toNat := by
    omega
  rw [hhigh, hlow, UInt16.ofNat_toNat, UInt16.ofNat_toNat]

/-- The replacement is no surrogate itself. -/
theorem repaired_eq_self_iff (unit : UInt16) :
    (if isHighSurrogate unit || isLowSurrogate unit then 0xFFFD else unit) = unit ↔
      ¬ (isHighSurrogate unit || isLowSurrogate unit) := by
  by_cases hsurrogate : isHighSurrogate unit || isLowSurrogate unit
  · rw [if_pos hsurrogate]
    refine iff_of_false ?_ fun hnone ↦ hnone hsurrogate
    rintro rfl
    exact absurd hsurrogate (by decide)
  · rw [if_neg hsurrogate]
    exact iff_of_true rfl hsurrogate

/-- Reading units as characters forgets nothing but surrogates without a partner. -/
theorem utf16_ofUtf16_eq_self_iff (text : List UInt16) :
    utf16 (ofUtf16 text) = text ↔ Paired text := by
  induction text using ofUtf16.induct with
  | case1 => exact iff_of_true rfl trivial
  | case2 unit =>
    rw [ofUtf16, utf16, List.flatMap_singleton, units_loneCharacter, List.cons.injEq,
      repaired_eq_self_iff, Paired]
    exact and_iff_left rfl
  | case3 unit next rest hpair ih =>
    rw [ofUtf16, if_pos hpair, utf16, List.flatMap_cons, units_pairedCharacter hpair, Paired,
      if_pos hpair, ← ih]
    simp [utf16]
  | case4 unit next rest hpair ih =>
    rw [ofUtf16, if_neg hpair, utf16, List.flatMap_cons, units_loneCharacter, Paired,
      if_neg hpair, ← ih, ← repaired_eq_self_iff]
    simp only [List.singleton_append, List.cons.injEq]
    rfl

/-- Behind a unit that is no high surrogate, reading goes on afresh. -/
theorem ofUtf16_cons {unit : UInt16} (h : isHighSurrogate unit = false) (rest : List UInt16) :
    ofUtf16 (unit :: rest) = loneCharacter unit :: ofUtf16 rest := by
  cases rest with
  | nil => rfl
  | cons next rest => simp [ofUtf16, h]

/-- A character is read from its units, whatever follows them. -/
theorem ofUtf16_units_append (c : Char) (rest : List UInt16) :
    ofUtf16 (units c ++ rest) = c :: ofUtf16 rest := by
  have hvalid : c.toNat < 0xD800 ∨ 0xDFFF < c.toNat ∧ c.toNat < 0x110000 := c.valid
  by_cases hbasic : c.toNat < 0x10000
  · have hunit : (UInt16.ofNat c.toNat).toNat = c.toNat := UInt16.toNat_ofNat_of_lt' hbasic
    have hhigh : isHighSurrogate (UInt16.ofNat c.toNat) = false := by
      rw [isHighSurrogate, hunit, Bool.and_eq_false_iff, decide_eq_false_iff_not,
        decide_eq_false_iff_not]
      omega
    have hlow : isLowSurrogate (UInt16.ofNat c.toNat) = false := by
      rw [isLowSurrogate, hunit, Bool.and_eq_false_iff, decide_eq_false_iff_not,
        decide_eq_false_iff_not]
      omega
    rw [units, if_pos hbasic, List.singleton_append, ofUtf16_cons hhigh, loneCharacter, hhigh,
      hlow, hunit]
    exact congrArg (· :: _) c.ofNat_toNat
  · have hhigh : (UInt16.ofNat (0xD800 + (c.toNat - 0x10000) / 0x400)).toNat =
        0xD800 + (c.toNat - 0x10000) / 0x400 :=
      UInt16.toNat_ofNat_of_lt' (show _ < 65536 by omega)
    have hlow : (UInt16.ofNat (0xDC00 + (c.toNat - 0x10000) % 0x400)).toNat =
        0xDC00 + (c.toNat - 0x10000) % 0x400 :=
      UInt16.toNat_ofNat_of_lt' (show _ < 65536 by omega)
    have hpair : (isHighSurrogate (UInt16.ofNat (0xD800 + (c.toNat - 0x10000) / 0x400)) &&
        isLowSurrogate (UInt16.ofNat (0xDC00 + (c.toNat - 0x10000) % 0x400))) = true := by
      simp only [isHighSurrogate, isLowSurrogate, hhigh, hlow, Bool.and_eq_true, decide_eq_true_eq]
      omega
    have hcharacter : 0x10000 + (0xD800 + (c.toNat - 0x10000) / 0x400 - 0xD800) * 0x400 +
        (0xDC00 + (c.toNat - 0x10000) % 0x400 - 0xDC00) = c.toNat := by
      omega
    rw [units, if_neg hbasic, List.cons_append, List.singleton_append, ofUtf16, if_pos hpair,
      pairedCharacter, hhigh, hlow, hcharacter]
    exact congrArg (· :: _) c.ofNat_toNat

/-- Every text is read from its units. -/
theorem ofUtf16_utf16 (text : List Char) : ofUtf16 (utf16 text) = text := by
  induction text with
  | nil => rfl
  | cons c text ih => rw [utf16, List.flatMap_cons, ofUtf16_units_append, ← utf16, ih]

namespace ModifiedUtf8

/-! ### Groups -/

/-- The bytes are groups, none of which could have been shorter: two bytes hold zero or a unit
beyond `0x7F`, and three one beyond `0x7FF`. -/
inductive Shortest : Bytes → Prop
  | nil : Shortest []
  | one {a : UInt8} {rest : Bytes} (ha : 0x01 ≤ a.toNat ∧ a.toNat ≤ 0x7F)
      (hrest : Shortest rest) : Shortest (a :: rest)
  | two {a b : UInt8} {rest : Bytes} (ha : 0xC0 ≤ a.toNat ∧ a.toNat ≤ 0xDF)
      (hb : isContinuation b)
      (hunit : (unitOfTwo a b).toNat = 0 ∨ 0x7F < (unitOfTwo a b).toNat)
      (hrest : Shortest rest) : Shortest (a :: b :: rest)
  | three {a b c : UInt8} {rest : Bytes} (ha : 0xE0 ≤ a.toNat ∧ a.toNat ≤ 0xEF)
      (hb : isContinuation b) (hc : isContinuation c) (hunit : 0x7FF < (unitOfThree a b c).toNat)
      (hrest : Shortest rest) : Shortest (a :: b :: c :: rest)

/-- A byte string that was decoded, read group by group. -/
inductive Groups : Bytes → List UInt16 → Prop
  | nil : Groups [] []
  | one {a : UInt8} {rest : Bytes} {text : List UInt16} (ha : 0x01 ≤ a.toNat ∧ a.toNat ≤ 0x7F)
      (hrest : Groups rest text) : Groups (a :: rest) (a.toUInt16 :: text)
  | two {a b : UInt8} {rest : Bytes} {text : List UInt16} (ha : 0xC0 ≤ a.toNat ∧ a.toNat ≤ 0xDF)
      (hb : isContinuation b) (hrest : Groups rest text) :
      Groups (a :: b :: rest) (unitOfTwo a b :: text)
  | three {a b c : UInt8} {rest : Bytes} {text : List UInt16}
      (ha : 0xE0 ≤ a.toNat ∧ a.toNat ≤ 0xEF) (hb : isContinuation b) (hc : isContinuation c)
      (hrest : Groups rest text) : Groups (a :: b :: c :: rest) (unitOfThree a b c :: text)

theorem decodeUnits_eq_some_iff {raw : Bytes} {text : List UInt16} :
    decodeUnits raw = some text ↔ Groups raw text := by
  constructor
  · intro h
    fun_induction decodeUnits raw generalizing text with
    | case1 =>
      cases h
      exact .nil
    | case2 a rest ha ih =>
      obtain ⟨others, hothers, rfl⟩ := Option.map_eq_some_iff.mp h
      exact .one ha (ih hothers)
    | case3 a _ ha b rest hb ih =>
      obtain ⟨others, hothers, rfl⟩ := Option.map_eq_some_iff.mp h
      exact .two ha hb (ih hothers)
    | case6 a _ _ ha b c rest hcontinued ih =>
      obtain ⟨hb, hc⟩ := Bool.and_eq_true_iff.mp hcontinued
      obtain ⟨others, hothers, rfl⟩ := Option.map_eq_some_iff.mp h
      exact .three ha hb hc (ih hothers)
    | _ => cases h
  · intro h
    induction h with
    | nil => rfl
    | one ha _ ih =>
      rw [decodeUnits.eq_def]
      simp only [if_pos ha, ih, Option.map_some]
    | @two a b _ _ ha hb _ ih =>
      have hnotOne : ¬ (0x01 ≤ a.toNat ∧ a.toNat ≤ 0x7F) := by omega
      rw [decodeUnits.eq_def]
      simp only [if_neg hnotOne, if_pos ha, if_pos hb, ih, Option.map_some]
    | @three a b c _ _ ha hb hc _ ih =>
      have hnotOne : ¬ (0x01 ≤ a.toNat ∧ a.toNat ≤ 0x7F) := by omega
      have hnotTwo : ¬ (0xC0 ≤ a.toNat ∧ a.toNat ≤ 0xDF) := by omega
      rw [decodeUnits.eq_def]
      simp only [if_neg hnotOne, if_neg hnotTwo, if_pos ha, hb, hc, Bool.and_self, if_true, ih,
        Option.map_some]

theorem encodeUnits_cons (unit : UInt16) (text : List UInt16) :
    encodeUnits (unit :: text) = encodeUnit unit ++ encodeUnits text :=
  rfl

theorem toNat_continuation (value : Nat) :
    (UInt8.ofNat (0x80 + value % 64)).toNat = 0x80 + value % 64 :=
  UInt8.toNat_ofNat_of_lt' (show _ < 256 by omega)

theorem isContinuation_ofNat (value : Nat) :
    isContinuation (UInt8.ofNat (0x80 + value % 64)) = true := by
  simp only [isContinuation, toNat_continuation, Bool.and_eq_true, decide_eq_true_eq]
  omega

/-- A unit that is encoded in front of groups is one more group. -/
theorem Groups.encodeUnit {raw : Bytes} {text : List UInt16} (unit : UInt16)
    (h : Groups raw text) : Groups (encodeUnit unit ++ raw) (unit :: text) := by
  have hlt := unit.toNat_lt
  simp only [ModifiedUtf8.encodeUnit]
  split
  · have hbyte := UInt8.toNat_ofNat_of_lt' (show unit.toNat < 256 by omega)
    have hunit : (UInt8.ofNat unit.toNat).toUInt16 = unit := by
      apply UInt16.toNat_inj.mp
      rw [UInt8.toNat_toUInt16, hbyte]
    have hgroups := Groups.one (a := UInt8.ofNat unit.toNat) (by rwa [hbyte]) h
    rwa [hunit] at hgroups
  · split
    · have hfirst := UInt8.toNat_ofNat_of_lt' (show 0xC0 + unit.toNat / 64 < 256 by omega)
      have hunit : unitOfTwo (UInt8.ofNat (0xC0 + unit.toNat / 64))
          (UInt8.ofNat (0x80 + unit.toNat % 64)) = unit := by
        apply UInt16.toNat_inj.mp
        rw [unitOfTwo, hfirst, toNat_continuation, UInt16.toNat_ofNat']
        omega
      have hgroups := Groups.two (a := UInt8.ofNat (0xC0 + unit.toNat / 64))
        (by rw [hfirst]; omega) (isContinuation_ofNat unit.toNat) h
      rwa [hunit] at hgroups
    · have hfirst := UInt8.toNat_ofNat_of_lt' (show 0xE0 + unit.toNat / 4096 < 256 by omega)
      have hunit : unitOfThree (UInt8.ofNat (0xE0 + unit.toNat / 4096))
          (UInt8.ofNat (0x80 + unit.toNat / 64 % 64)) (UInt8.ofNat (0x80 + unit.toNat % 64)) =
            unit := by
        apply UInt16.toNat_inj.mp
        rw [unitOfThree, hfirst, toNat_continuation, toNat_continuation, UInt16.toNat_ofNat']
        omega
      have hgroups := Groups.three (a := UInt8.ofNat (0xE0 + unit.toNat / 4096))
        (by rw [hfirst]; omega) (isContinuation_ofNat (unit.toNat / 64))
        (isContinuation_ofNat unit.toNat) h
      rwa [hunit] at hgroups

theorem groups_encodeUnits (text : List UInt16) : Groups (encodeUnits text) text := by
  induction text with
  | nil => exact .nil
  | cons unit text ih => exact ih.encodeUnit unit

/-! ### Lengths of groups -/

theorem length_encodeUnit_le (unit : UInt16) : (encodeUnit unit).length ≤ 3 := by
  simp only [encodeUnit]
  split <;> (try split) <;> simp

theorem encodeUnit_of_one {a : UInt8} (ha : 0x01 ≤ a.toNat ∧ a.toNat ≤ 0x7F) :
    encodeUnit a.toUInt16 = [a] := by
  simp only [encodeUnit, UInt8.toNat_toUInt16, if_pos ha, UInt8.ofNat_toNat]

/-- A group of two bytes is kept unless its unit fits into one. -/
theorem encodeUnit_unitOfTwo {a b : UInt8} (ha : 0xC0 ≤ a.toNat ∧ a.toNat ≤ 0xDF)
    (hb : isContinuation b) :
    (encodeUnit (unitOfTwo a b)).length ≤ 2 ∧
      (encodeUnit (unitOfTwo a b) = [a, b] ↔
        (unitOfTwo a b).toNat = 0 ∨ 0x7F < (unitOfTwo a b).toNat) := by
  simp only [isContinuation, Bool.and_eq_true, decide_eq_true_eq] at hb
  have hvalue : (unitOfTwo a b).toNat = a.toNat % 32 * 64 + b.toNat % 64 :=
    UInt16.toNat_ofNat_of_lt' (show _ < 65536 by omega)
  simp only [encodeUnit, hvalue]
  split
  · refine ⟨by simp, iff_of_false (by simp) (by omega)⟩
  · rw [if_pos (by omega)]
    refine ⟨by simp, iff_of_true ?_ (by omega)⟩
    rw [show 0xC0 + (a.toNat % 32 * 64 + b.toNat % 64) / 64 = a.toNat by omega,
      show 0x80 + (a.toNat % 32 * 64 + b.toNat % 64) % 64 = b.toNat by omega,
      UInt8.ofNat_toNat, UInt8.ofNat_toNat]

/-- A group of three bytes is kept unless its unit fits into two. -/
theorem encodeUnit_unitOfThree {a b c : UInt8} (ha : 0xE0 ≤ a.toNat ∧ a.toNat ≤ 0xEF)
    (hb : isContinuation b) (hc : isContinuation c) :
    encodeUnit (unitOfThree a b c) = [a, b, c] ↔ 0x7FF < (unitOfThree a b c).toNat := by
  simp only [isContinuation, Bool.and_eq_true, decide_eq_true_eq] at hb hc
  have hvalue : (unitOfThree a b c).toNat =
      a.toNat % 16 * 4096 + b.toNat % 64 * 64 + c.toNat % 64 :=
    UInt16.toNat_ofNat_of_lt' (show _ < 65536 by omega)
  simp only [encodeUnit, hvalue]
  split
  · exact iff_of_false (by simp) (by omega)
  · split
    · exact iff_of_false (by simp) (by omega)
    · refine iff_of_true ?_ (by omega)
      rw [show 0xE0 + (a.toNat % 16 * 4096 + b.toNat % 64 * 64 + c.toNat % 64) / 4096 = a.toNat by
          omega,
        show 0x80 + (a.toNat % 16 * 4096 + b.toNat % 64 * 64 + c.toNat % 64) / 64 % 64 = b.toNat by
          omega,
        show 0x80 + (a.toNat % 16 * 4096 + b.toNat % 64 * 64 + c.toNat % 64) % 64 = c.toNat by
          omega,
        UInt8.ofNat_toNat, UInt8.ofNat_toNat, UInt8.ofNat_toNat]

/-- Units are encoded in no more bytes than they were read from. -/
theorem Groups.length_encodeUnits_le {raw : Bytes} {text : List UInt16} (h : Groups raw text) :
    (encodeUnits text).length ≤ raw.length := by
  induction h with
  | nil => exact Nat.le_refl 0
  | one ha _ ih =>
    rw [encodeUnits_cons, encodeUnit_of_one ha]
    exact Nat.succ_le_succ ih
  | two ha hb _ ih =>
    have hle := (encodeUnit_unitOfTwo ha hb).1
    simp only [encodeUnits_cons, List.length_append, List.length_cons]
    omega
  | @three a b c _ _ _ _ _ _ ih =>
    have hle := length_encodeUnit_le (unitOfThree a b c)
    simp only [encodeUnits_cons, List.length_append, List.length_cons]
    omega

theorem shortest_one_iff {a : UInt8} {rest : Bytes} (ha : 0x01 ≤ a.toNat ∧ a.toNat ≤ 0x7F) :
    Shortest (a :: rest) ↔ Shortest rest := by
  constructor
  · intro h
    cases h with
    | one _ hrest => exact hrest
    | two hother => omega
    | three hother => omega
  · exact .one ha

theorem shortest_two_iff {a b : UInt8} {rest : Bytes} (ha : 0xC0 ≤ a.toNat ∧ a.toNat ≤ 0xDF)
    (hb : isContinuation b) :
    Shortest (a :: b :: rest) ↔
      ((unitOfTwo a b).toNat = 0 ∨ 0x7F < (unitOfTwo a b).toNat) ∧ Shortest rest := by
  constructor
  · intro h
    cases h with
    | one hother => omega
    | two _ _ hunit hrest => exact ⟨hunit, hrest⟩
    | three hother => omega
  · exact fun h ↦ .two ha hb h.1 h.2

theorem shortest_three_iff {a b c : UInt8} {rest : Bytes}
    (ha : 0xE0 ≤ a.toNat ∧ a.toNat ≤ 0xEF) (hb : isContinuation b) (hc : isContinuation c) :
    Shortest (a :: b :: c :: rest) ↔ 0x7FF < (unitOfThree a b c).toNat ∧ Shortest rest := by
  constructor
  · intro h
    cases h with
    | one hother => omega
    | two hother => omega
    | three _ _ _ hunit hrest => exact ⟨hunit, hrest⟩
  · exact fun h ↦ .three ha hb hc h.1 h.2

/-- Units are encoded as they were read exactly if no group could have been shorter. -/
theorem Groups.encodeUnits_eq_iff {raw : Bytes} {text : List UInt16} (h : Groups raw text) :
    encodeUnits text = raw ↔ Shortest raw := by
  induction h with
  | nil => exact iff_of_true rfl .nil
  | @one a rest _ ha hrest ih =>
    rw [shortest_one_iff ha, ← ih, encodeUnits_cons, encodeUnit_of_one ha]
    exact List.cons_inj_right a
  | @two a b rest _ ha hb hrest ih =>
    obtain ⟨hle, hunit⟩ := encodeUnit_unitOfTwo ha hb
    rw [shortest_two_iff ha hb, ← ih, ← hunit, encodeUnits_cons]
    change _ ++ _ = [a, b] ++ rest ↔ _
    exact append_eq_append_iff_of_length_le hle hrest.length_encodeUnits_le
  | @three a b c rest _ ha hb hc hrest ih =>
    rw [shortest_three_iff ha hb hc, ← ih, ← encodeUnit_unitOfThree ha hb hc, encodeUnits_cons]
    change _ ++ _ = [a, b, c] ++ rest ↔ _
    exact append_eq_append_iff_of_length_le (length_encodeUnit_le _) hrest.length_encodeUnits_le

/-! ### Texts -/

/-- Nothing about the byte string is forgotten when it is decoded. -/
def Canonical (raw : Bytes) : Prop :=
  Shortest raw ∧ ∃ text, decodeUnits raw = some text ∧ Paired text

theorem encode_append (first second : String) :
    encode (first ++ second) = encode first ++ encode second := by
  rw [encode, String.toList_append, utf16, List.flatMap_append, encodeUnits, List.flatMap_append]
  rfl

theorem encode_of_decode {raw : Bytes} {text : String} (h : decode raw = some text) :
    ∃ groups, Groups raw groups ∧ encode text = encodeUnits (utf16 (ofUtf16 groups)) := by
  obtain ⟨groups, hgroups, rfl⟩ := Option.map_eq_some_iff.mp h
  exact ⟨groups, decodeUnits_eq_some_iff.mp hgroups, by rw [encode, String.toList_ofList]⟩

/-- Every text is decoded as it was encoded. -/
theorem decode_of_encode (text : String) : decode (encode text) = some text := by
  have hunits := decodeUnits_eq_some_iff.mpr (groups_encodeUnits (utf16 text.toList))
  rw [decode, encode, hunits, Option.map_some, ofUtf16_utf16, String.ofList_toList]

/-- The canonical byte strings are those that are encoded as they were decoded. -/
theorem encode_eq_iff {raw : Bytes} {text : String} (h : decode raw = some text) :
    encode text = raw ↔ Canonical raw := by
  obtain ⟨groups, hgroups, hencode⟩ := encode_of_decode h
  have hdecode := decodeUnits_eq_some_iff.mpr hgroups
  rw [hencode]
  constructor
  · intro hraw
    have hsame : utf16 (ofUtf16 groups) = groups := by
      have hread := decodeUnits_eq_some_iff.mpr (groups_encodeUnits (utf16 (ofUtf16 groups)))
      rw [hraw, hdecode] at hread
      exact (Option.some.inj hread).symm
    rw [hsame] at hraw
    exact ⟨hgroups.encodeUnits_eq_iff.mp hraw, groups, hdecode,
      (utf16_ofUtf16_eq_self_iff groups).mp hsame⟩
  · rintro ⟨hshortest, others, hothers, hpaired⟩
    obtain rfl := Option.some.inj (hdecode.symm.trans hothers)
    rw [(utf16_ofUtf16_eq_self_iff groups).mpr hpaired]
    exact hgroups.encodeUnits_eq_iff.mpr hshortest

theorem canonical_iff {raw : Bytes} : Canonical raw ↔ (decode raw).map encode = some raw := by
  cases hdecode : decode raw with
  | none =>
    refine iff_of_false ?_ (by simp)
    rintro ⟨-, text, htext, -⟩
    rw [decode, htext] at hdecode
    cases hdecode
  | some text =>
    rw [Option.map_some, Option.some.injEq, encode_eq_iff hdecode]

theorem length_encodeUnit_of_surrogate {unit : UInt16}
    (h : (isHighSurrogate unit || isLowSurrogate unit) = true) : (encodeUnit unit).length = 3 := by
  simp only [isHighSurrogate, isLowSurrogate, Bool.or_eq_true, Bool.and_eq_true,
    decide_eq_true_eq] at h
  rw [encodeUnit, if_neg (by omega), if_neg (by omega)]
  rfl

/-- A surrogate without a partner is replaced by a unit of its length. -/
theorem length_encodeUnit_repaired (unit : UInt16) :
    (encodeUnit (if isHighSurrogate unit || isLowSurrogate unit then 0xFFFD else unit)).length =
      (encodeUnit unit).length := by
  by_cases hsurrogate : isHighSurrogate unit || isLowSurrogate unit
  · rw [if_pos hsurrogate, length_encodeUnit_of_surrogate hsurrogate]
    rfl
  · rw [if_neg hsurrogate]

theorem length_encodeUnits_utf16 (text : List UInt16) :
    (encodeUnits (utf16 (ofUtf16 text))).length = (encodeUnits text).length := by
  induction text using ofUtf16.induct with
  | case1 => rfl
  | case2 unit =>
    rw [ofUtf16, utf16, List.flatMap_singleton, units_loneCharacter, encodeUnits_cons,
      encodeUnits_cons, List.length_append, List.length_append, length_encodeUnit_repaired]
  | case3 unit next rest hpair ih =>
    rw [ofUtf16, if_pos hpair, utf16, List.flatMap_cons, units_pairedCharacter hpair,
      List.cons_append, List.singleton_append]
    simp only [encodeUnits_cons, List.length_append]
    rw [← ih, utf16]
  | case4 unit next rest hpair ih =>
    rw [ofUtf16, if_neg hpair, utf16, List.flatMap_cons, units_loneCharacter,
      List.singleton_append]
    rw [encodeUnits_cons, encodeUnits_cons, List.length_append, List.length_append,
      length_encodeUnit_repaired, ← ih, utf16]

/-- What is written for a decoded text is no longer than what it was read from. -/
theorem length_encode_le {raw : Bytes} {text : String} (h : decode raw = some text) :
    (encode text).length ≤ raw.length := by
  obtain ⟨groups, hgroups, hencode⟩ := encode_of_decode h
  rw [hencode, length_encodeUnits_utf16]
  exact hgroups.length_encodeUnits_le

end ModifiedUtf8

end ClassWeaver.Text
