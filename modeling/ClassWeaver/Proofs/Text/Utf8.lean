import ClassWeaver.Proofs.Text.ModifiedUtf8
import ClassWeaver.Text.Utf8
import Mathlib.Data.List.TakeWhile

/-!
Where the two encodings of texts agree.

Both spell a text alike that is plain: it holds no zero character, and none beyond the first 65536.
A plain text in modified UTF-8 is therefore read as it is by whoever takes it for UTF-8. Any other
text is not: reading it strictly fails, and reading it leniently gives another text
(`decode?_encode_eq_some_iff`, `decodeLossy_encode_iff`).
-/

set_option autoImplicit false
set_option relaxedAutoImplicit false

namespace ClassWeaver.Text.Utf8

/-! ### Characters in UTF-8 -/

theorem toNat_ofNat {n : Nat} (h : n < 256) : (UInt8.ofNat n).toNat = n :=
  UInt8.toNat_ofNat_of_lt' h

theorem pieces_cons (byte : UInt8) (rest : Bytes) :
    pieces (byte :: rest) = (next byte rest).1 :: pieces (next byte rest).2 := by
  rw [pieces]

theorem lead?_one {n : Nat} (h : n ≤ 0x7F) : lead? (UInt8.ofNat n) = some ⟨0, 0x80, 0xBF, n⟩ := by
  rw [lead?, toNat_ofNat (by omega), if_pos h]

theorem lead?_two {n : Nat} (hlow : 0xC2 ≤ n) (hhigh : n ≤ 0xDF) :
    lead? (UInt8.ofNat n) = some ⟨1, 0x80, 0xBF, n % 32⟩ := by
  rw [lead?, toNat_ofNat (by omega), if_neg (by omega), if_pos ⟨hlow, hhigh⟩]

/-- The bounds of the second byte keep out what has a shorter form, and the surrogates. -/
theorem lead?_three {n : Nat} (hlow : 0xE0 ≤ n) (hhigh : n ≤ 0xEF) :
    lead? (UInt8.ofNat n) =
      some ⟨2, if n = 0xE0 then 0xA0 else 0x80, if n = 0xED then 0x9F else 0xBF, n % 16⟩ := by
  rw [lead?, toNat_ofNat (by omega), if_neg (by omega), if_neg (by omega)]
  by_cases hfirst : n = 0xE0
  · subst hfirst
    rfl
  by_cases hsurrogate : n = 0xED
  · subst hsurrogate
    rfl
  rw [if_neg hfirst, if_neg hsurrogate, if_pos (by omega), if_neg hfirst, if_neg hsurrogate]

/-- The bounds of the second byte keep out what has a shorter form, and what is no character. -/
theorem lead?_four {n : Nat} (hlow : 0xF0 ≤ n) (hhigh : n ≤ 0xF4) :
    lead? (UInt8.ofNat n) =
      some ⟨3, if n = 0xF0 then 0x90 else 0x80, if n = 0xF4 then 0x8F else 0xBF, n % 8⟩ := by
  rw [lead?, toNat_ofNat (by omega), if_neg (by omega), if_neg (by omega), if_neg (by omega),
    if_neg (by omega), if_neg (by omega)]
  by_cases hfirst : n = 0xF0
  · subst hfirst
    rfl
  by_cases hlast : n = 0xF4
  · subst hlast
    rfl
  rw [if_neg hfirst, if_neg hlast, if_pos (by omega), if_neg hfirst, if_neg hlast]

theorem follow_cons {count low high bits n : Nat} {rest : Bytes} (hbyte : n < 256)
    (hlow : low ≤ n) (hhigh : n ≤ high) :
    follow (count + 1) low high bits (UInt8.ofNat n :: rest) =
      follow count 0x80 0xBF (bits * 64 + n % 64) rest := by
  rw [follow, toNat_ofNat hbyte, if_pos ⟨hlow, hhigh⟩]

/-- A byte out of its bounds is left for the next piece. -/
theorem follow_of_outside {count low high bits : Nat} {byte : UInt8} {rest : Bytes}
    (h : ¬ (low ≤ byte.toNat ∧ byte.toNat ≤ high)) :
    follow (count + 1) low high bits (byte :: rest) = (none, byte :: rest) :=
  if_neg h

/-- The first piece is the character whose number comes out, if one does. -/
theorem pieces_of_follow {byte : UInt8} {rest left : Bytes} {lead : Lead} {number : Option Nat}
    (hlead : lead? byte = some lead)
    (hfollow : follow lead.count lead.low lead.high lead.bits rest = (number, left)) :
    pieces (byte :: rest) = number.map Char.ofNat :: pieces left := by
  have hnext : next byte rest = (number.map Char.ofNat, left) := by
    rw [next, hlead]
    dsimp only
    rw [hfollow]
  rw [pieces_cons, hnext]

theorem pieces_utf8EncodeChar (c : Char) (rest : Bytes) :
    pieces (String.utf8EncodeChar c ++ rest) = some c :: pieces rest := by
  have hvalid : c.toNat < 0xD800 ∨ 0xDFFF < c.toNat ∧ c.toNat < 0x110000 := c.valid
  have hval : c.val.toNat = c.toNat := rfl
  have hchar : some c = (some c.toNat).map Char.ofNat := by rw [Option.map_some, Char.ofNat_toNat]
  rw [String.utf8EncodeChar, hval, hchar]
  by_cases hone : c.toNat ≤ 0x7F
  · rw [if_pos hone]
    exact pieces_of_follow (lead?_one hone) rfl
  by_cases htwo : c.toNat ≤ 0x7FF
  · rw [if_neg hone, if_pos htwo, List.cons_append, List.cons_append, List.nil_append]
    have hnumber : (c.toNat / 64 % 32 + 192) % 32 * 64 + (c.toNat % 64 + 128) % 64 = c.toNat := by
      omega
    refine pieces_of_follow (lead?_two (by omega) (by omega)) ?_
    dsimp only
    rw [follow_cons (by omega) (by omega) (by omega), hnumber]
    rfl
  by_cases hthree : c.toNat ≤ 0xFFFF
  · rw [if_neg hone, if_neg htwo, if_pos hthree, List.cons_append, List.cons_append,
      List.cons_append, List.nil_append]
    have hnumber : ((c.toNat / 4096 % 16 + 224) % 16 * 64 + (c.toNat / 64 % 64 + 128) % 64) * 64 +
        (c.toNat % 64 + 128) % 64 = c.toNat := by
      omega
    refine pieces_of_follow (lead?_three (by omega) (by omega)) ?_
    dsimp only
    rw [follow_cons (by omega) (by split <;> omega) (by split <;> omega),
      follow_cons (by omega) (by omega) (by omega), hnumber]
    rfl
  · rw [if_neg hone, if_neg htwo, if_neg hthree, List.cons_append, List.cons_append,
      List.cons_append, List.cons_append, List.nil_append]
    have hnumber : (((c.toNat / 262144 % 8 + 240) % 8 * 64 +
        (c.toNat / 4096 % 64 + 128) % 64) * 64 + (c.toNat / 64 % 64 + 128) % 64) * 64 +
          (c.toNat % 64 + 128) % 64 = c.toNat := by
      omega
    refine pieces_of_follow (lead?_four (by omega) (by omega)) ?_
    dsimp only
    rw [follow_cons (by omega) (by split <;> omega) (by split <;> omega),
      follow_cons (by omega) (by omega) (by omega), follow_cons (by omega) (by omega) (by omega),
      hnumber]
    rfl

/-- What is encoded is read as it was, whatever is behind it. -/
theorem pieces_encode_append (text : List Char) (rest : Bytes) :
    pieces (text.flatMap String.utf8EncodeChar ++ rest) = text.map some ++ pieces rest := by
  induction text with
  | nil => rfl
  | cons c others ih =>
    rw [List.flatMap_cons, List.append_assoc, pieces_utf8EncodeChar, ih, List.map_cons,
      List.cons_append]

/-! ### Bytes that stand for themselves -/

/-- A byte below `0x80` is no part of what is in front of it. -/
theorem follow_append_singleton {count low high bits : Nat} {byte : UInt8} (hlow : 0x80 ≤ low)
    (hbyte : byte.toNat < 0x80) (bytes : Bytes) :
    follow count low high bits (bytes ++ [byte]) =
      ((follow count low high bits bytes).1, (follow count low high bits bytes).2 ++ [byte]) := by
  induction bytes generalizing count low high bits with
  | nil =>
    cases count with
    | zero => rfl
    | succ count => exact follow_of_outside (by omega)
  | cons first rest ih =>
    cases count with
    | zero => rfl
    | succ count =>
      rw [List.cons_append, follow, follow]
      split
      · exact ih (Nat.le_refl _)
      · rfl

theorem le_low_of_lead? {byte : UInt8} {lead : Lead} (h : lead? byte = some lead) :
    0x80 ≤ lead.low := by
  unfold lead? at h
  dsimp only at h
  split_ifs at h <;> cases h <;> dsimp only <;> omega

theorem next_append_singleton {byte : UInt8} (hbyte : byte.toNat < 0x80) (first : UInt8)
    (rest : Bytes) :
    next first (rest ++ [byte]) = ((next first rest).1, (next first rest).2 ++ [byte]) := by
  unfold next
  cases hlead : lead? first with
  | none => rfl
  | some lead =>
    dsimp only
    rw [follow_append_singleton (le_low_of_lead? hlead) hbyte]

theorem pieces_append_singleton {byte : UInt8} (hbyte : byte.toNat < 0x80) (bytes : Bytes) :
    pieces (bytes ++ [byte]) = pieces bytes ++ pieces [byte] := by
  induction bytes using pieces.induct with
  | case1 => rw [pieces, List.nil_append, List.nil_append]
  | case2 first rest ih =>
    rw [List.cons_append, pieces_cons, pieces_cons, next_append_singleton hbyte, ih,
      List.cons_append]

/-! ### Where the encodings agree -/

/-- Both encodings spell the text alike: it holds no zero, and no character beyond the first
65536. -/
def Plain (text : String) : Prop :=
  ∀ c ∈ text.toList, 0 < c.toNat ∧ c.toNat < 0x10000

/-- A character of a plain text takes the same bytes in both encodings. -/
theorem encodeUnits_of_plain {c : Char} (h : 0 < c.toNat ∧ c.toNat < 0x10000) :
    ModifiedUtf8.encodeUnits (units c) = String.utf8EncodeChar c := by
  have hval : c.val.toNat = c.toNat := rfl
  have hunit : (UInt16.ofNat c.toNat).toNat = c.toNat := UInt16.toNat_ofNat_of_lt' h.2
  rw [units, if_pos h.2, ModifiedUtf8.encodeUnits, List.flatMap_singleton,
    ModifiedUtf8.encodeUnit, hunit, String.utf8EncodeChar, hval]
  by_cases hone : c.toNat ≤ 0x7F
  · rw [if_pos ⟨h.1, hone⟩, if_pos hone]
  rw [if_neg (fun hsmall ↦ hone hsmall.2), if_neg hone]
  by_cases htwo : c.toNat ≤ 0x7FF
  · have hlead : 0xC0 + c.toNat / 64 = c.toNat / 64 % 32 + 192 := by omega
    rw [if_pos htwo, if_pos htwo, hlead, Nat.add_comm 0x80]
  · have hthree : c.toNat ≤ 0xFFFF := Nat.le_of_lt_succ h.2
    have hlead : 0xE0 + c.toNat / 4096 = c.toNat / 4096 % 16 + 224 := by omega
    rw [if_neg htwo, if_neg htwo, if_pos hthree, hlead, Nat.add_comm 0x80, Nat.add_comm 0x80]

/-- The first byte of any other character begins nothing that is UTF-8. -/
theorem pieces_of_not_plain {c : Char} (h : ¬ (0 < c.toNat ∧ c.toNat < 0x10000)) (rest : Bytes) :
    ∃ more, pieces (ModifiedUtf8.encodeUnits (units c) ++ rest) = none :: more := by
  rw [units]
  by_cases hbasic : c.toNat < 0x10000
  · have hzero : c.toNat = 0 := by omega
    have hbytes : ModifiedUtf8.encodeUnits [UInt16.ofNat 0] = [0xC0, 0x80] := by decide
    rw [if_pos hbasic, hzero, hbytes, List.cons_append, pieces_cons]
    exact ⟨_, rfl⟩
  · have hvalid : c.toNat < 0xD800 ∨ 0xDFFF < c.toNat ∧ c.toNat < 0x110000 := c.valid
    rw [if_neg hbasic]
    generalize hhigh : 0xD800 + (c.toNat - 0x10000) / 0x400 = high
    have hbounds : 0xD800 ≤ high ∧ high < 0xDC00 := by omega
    have hunit : (UInt16.ofNat high).toNat = high :=
      UInt16.toNat_ofNat_of_lt' (Nat.lt_trans hbounds.2 (by decide))
    have hfirst : 0xE0 + high / 4096 = 0xED := by omega
    have hsecond : ¬ (0x80 ≤ (UInt8.ofNat (0x80 + high / 64 % 64)).toNat ∧
        (UInt8.ofNat (0x80 + high / 64 % 64)).toNat ≤ 0x9F) := by
      rw [toNat_ofNat (by omega)]
      omega
    have hlead : lead? (UInt8.ofNat 0xED) = some ⟨2, 0x80, 0x9F, 13⟩ := by decide
    rw [ModifiedUtf8.encodeUnits, List.flatMap_cons, ModifiedUtf8.encodeUnit, hunit,
      if_neg (by omega), if_neg (by omega), hfirst, List.append_assoc, List.cons_append]
    exact ⟨_, pieces_of_follow hlead (follow_of_outside hsecond)⟩

/-- What is read of an encoded text, up to the first character that is not plain. -/
theorem exists_pieces_of_not_plain {text : List Char}
    (h : ¬ ∀ c ∈ text, 0 < c.toNat ∧ c.toNat < 0x10000) (rest : Bytes) :
    ∃ before c after more, text = before ++ c :: after ∧ ¬ (0 < c.toNat ∧ c.toNat < 0x10000) ∧
      pieces (ModifiedUtf8.encodeUnits (utf16 text) ++ rest) = before.map some ++ none :: more := by
  induction text with
  | nil => exact absurd nofun h
  | cons c others ih =>
    have hcons : ModifiedUtf8.encodeUnits (utf16 (c :: others)) =
        ModifiedUtf8.encodeUnits (units c) ++ ModifiedUtf8.encodeUnits (utf16 others) := by
      rw [utf16, List.flatMap_cons, ModifiedUtf8.encodeUnits, List.flatMap_append]
      rfl
    rw [hcons, List.append_assoc]
    by_cases hc : 0 < c.toNat ∧ c.toNat < 0x10000
    · obtain ⟨before, found, after, more, rfl, hfound, hpieces⟩ :=
        ih fun hothers ↦ h (List.forall_mem_cons.mpr ⟨hc, hothers⟩)
      refine ⟨c :: before, found, after, more, rfl, hfound, ?_⟩
      rw [encodeUnits_of_plain hc, pieces_utf8EncodeChar, hpieces]
      rfl
    · obtain ⟨more, hmore⟩ :=
        pieces_of_not_plain hc (ModifiedUtf8.encodeUnits (utf16 others) ++ rest)
      exact ⟨[], c, others, more, rfl, hc, hmore⟩

theorem encode_of_plain {text : String} (h : Plain text) :
    ModifiedUtf8.encode text = encode text := by
  rw [ModifiedUtf8.encode, ModifiedUtf8.encodeUnits, utf16, List.flatMap_assoc, encode]
  exact List.flatMap_congr fun c hmem ↦ encodeUnits_of_plain (h c hmem)

theorem pieces_of_plain {text : String} (h : Plain text) :
    pieces (ModifiedUtf8.encode text) = text.toList.map some := by
  have hpieces := pieces_encode_append text.toList []
  rw [List.append_nil, pieces, List.append_nil] at hpieces
  rw [encode_of_plain h, encode, hpieces]

/-! ### Reading modified UTF-8 as UTF-8 -/

theorem mapM_id_map_some (text : List Char) : (text.map some).mapM id = some text := by
  induction text with
  | nil => rfl
  | cons c others ih =>
    rw [List.map_cons, List.mapM_cons, ih]
    rfl

theorem mapM_id_of_mem_none {pieces : List (Option Char)} (h : none ∈ pieces) :
    pieces.mapM id = none := by
  induction pieces with
  | nil => cases h
  | cons piece others ih =>
    rw [List.mapM_cons]
    cases piece with
    | none => rfl
    | some c =>
      rw [ih ((List.mem_cons.mp h).resolve_left nofun)]
      rfl

theorem decode?_encode (text : String) : decode? (encode text) = some text := by
  have hpieces := pieces_encode_append text.toList []
  rw [List.append_nil, pieces, List.append_nil] at hpieces
  rw [decode?, encode, hpieces, mapM_id_map_some, Option.map_some, String.ofList_toList]

/-- Whoever reads strictly gets a plain text as it was, and nothing of any other. -/
theorem decode?_encode_eq_some_iff {text other : String} :
    decode? (ModifiedUtf8.encode text) = some other ↔ Plain text ∧ other = text := by
  by_cases h : Plain text
  · rw [decode?, pieces_of_plain h, mapM_id_map_some, Option.map_some, String.ofList_toList,
      Option.some_inj, and_iff_right h, eq_comm]
  · obtain ⟨before, c, after, more, -, -, hpieces⟩ := exists_pieces_of_not_plain h []
    rw [List.append_nil] at hpieces
    have hnone : (pieces (ModifiedUtf8.encode text)).mapM id = none := by
      refine mapM_id_of_mem_none ?_
      rw [ModifiedUtf8.encode, hpieces]
      exact List.mem_append_right _ List.mem_cons_self
    rw [decode?, hnone, Option.map_none]
    constructor
    · rintro ⟨⟩
    · rintro ⟨hplain, -⟩
      exact absurd hplain h

theorem encode_eq_iff {text : String} : encode text = ModifiedUtf8.encode text ↔ Plain text := by
  constructor
  · intro h
    exact (decode?_encode_eq_some_iff.mp (h ▸ decode?_encode text)).1
  · exact fun h ↦ (encode_of_plain h).symm

/-- Whoever reads leniently gets a plain text as it was, and another text for any other. -/
theorem decodeLossy_encode_iff {text : String} :
    decodeLossy (ModifiedUtf8.encode text) = text ↔ Plain text := by
  constructor
  · intro hread
    by_contra h
    obtain ⟨before, c, after, more, htext, hc, hpieces⟩ := exists_pieces_of_not_plain h []
    rw [List.append_nil] at hpieces
    have hchars := congrArg String.toList hread
    rw [decodeLossy, String.toList_ofList, ModifiedUtf8.encode, hpieces, htext, List.map_append,
      List.map_map, List.map_cons] at hchars
    have hsame : before.map ((fun piece : Option Char ↦ piece.getD '\uFFFD') ∘ some) = before :=
      List.map_id _
    rw [hsame] at hchars
    obtain ⟨hreplaced, -⟩ := List.cons.inj (List.append_cancel_left hchars)
    obtain rfl : c = '\uFFFD' := hreplaced.symm
    exact hc (by decide)
  · intro h
    have hsame : text.toList.map ((fun piece : Option Char ↦ piece.getD '\uFFFD') ∘ some) =
        text.toList := List.map_id _
    rw [decodeLossy, pieces_of_plain h, List.map_map, hsame, String.ofList_toList]

theorem ne_zero_of_mem_encodeUnit {unit : UInt16} {byte : UInt8}
    (h : byte ∈ ModifiedUtf8.encodeUnit unit) : byte ≠ 0 := by
  have hlt := unit.toNat_lt
  have hne {n : Nat} (hpos : 0 < n) (hn : n < 256) : UInt8.ofNat n ≠ 0 := fun hzero ↦ by
    have hnumber := congrArg UInt8.toNat hzero
    rw [toNat_ofNat hn] at hnumber
    exact Nat.ne_of_gt hpos hnumber
  unfold ModifiedUtf8.encodeUnit at h
  dsimp only at h
  split_ifs at h with hone htwo
  · obtain rfl := List.mem_singleton.mp h
    exact hne hone.1 (by omega)
  · rcases List.mem_pair.mp h with rfl | rfl
    · exact hne (by omega) (by omega)
    · exact hne (by omega) (by omega)
  · simp only [List.mem_cons, List.not_mem_nil, or_false] at h
    rcases h with rfl | rfl | rfl
    · exact hne (by omega) (by omega)
    · exact hne (by omega) (by omega)
    · exact hne (by omega) (by omega)

/-- Modified UTF-8 holds no zero, so that a text does not end before its end in memory. -/
theorem untilZero_encode (text : String) :
    untilZero (ModifiedUtf8.encode text) = ModifiedUtf8.encode text := by
  refine List.takeWhile_eq_self_iff.2 fun byte hmem ↦ decide_eq_true ?_
  obtain ⟨unit, -, hbyte⟩ := List.mem_flatMap.mp hmem
  exact ne_zero_of_mem_encodeUnit hbyte

end ClassWeaver.Text.Utf8
