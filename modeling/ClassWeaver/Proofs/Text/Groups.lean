import ClassWeaver.Proofs.Text.ModifiedUtf8

/-!
The syntax of modified UTF-8, and the codec as it is held to it.

A byte string is in the syntax if it can be cut into groups, each of which spells one unit
(`Splits`); there is at most one way to do so (`Splits.unique`). A group is overlong if a shorter
one spells its unit, and a surrogate is alone if its partner is not next to it. Both are said here
without the codec. `codec_of_groups` then tells on which byte strings the decoder answers, and what
encoding makes of what it read.
-/

set_option autoImplicit false
set_option relaxedAutoImplicit false

namespace ClassWeaver.Text

/-! ### Surrogates by their places -/

/-- The unit at this place is a surrogate whose partner is not next to it: behind a high one stands
no low one, or in front of a low one no high one. -/
def LoneAt (text : List UInt16) (index : Nat) : Prop :=
  (∃ unit, text[index]? = some unit ∧ isHighSurrogate unit = true ∧
    ∀ next, text[index + 1]? = some next → isLowSurrogate next = false) ∨
  ∃ unit, text[index]? = some unit ∧ isLowSurrogate unit = true ∧
    ∀ earlier, index = earlier + 1 → ∀ before, text[earlier]? = some before →
      isHighSurrogate before = false

section

variable {unit next : UInt16} {rest : List UInt16} {index : Nat}

theorem isHighSurrogate_of_low (h : isLowSurrogate unit = true) : isHighSurrogate unit = false := by
  simp only [isLowSurrogate, isHighSurrogate, Bool.and_eq_true, Bool.and_eq_false_iff,
    decide_eq_true_eq, decide_eq_false_iff_not] at h ⊢
  omega

/-- Two places further on, one more unit in front does not matter. -/
theorem loneAt_cons_succ_succ : LoneAt (unit :: rest) (index + 2) ↔ LoneAt rest (index + 1) := by
  simp [LoneAt]

/-- Behind a unit that is no high surrogate, the text might as well begin. -/
theorem loneAt_cons_succ (h : isHighSurrogate unit = false) :
    LoneAt (unit :: rest) (index + 1) ↔ LoneAt rest index := by
  cases index with
  | zero => simp [LoneAt, h]
  | succ index => exact loneAt_cons_succ_succ

theorem loneAt_zero_iff : LoneAt (unit :: rest) 0 ↔
    isHighSurrogate unit = true ∧ (∀ next, rest[0]? = some next → isLowSurrogate next = false) ∨
      isLowSurrogate unit = true := by
  simp [LoneAt]

/-- Where a unit makes no pair with the one behind it, it is alone if it is a surrogate at all. -/
theorem loneAt_zero_of_not_pair (hpair : ¬ (isHighSurrogate unit && isLowSurrogate next) = true) :
    LoneAt (unit :: next :: rest) 0 ↔ (isHighSurrogate unit || isLowSurrogate unit) = true := by
  rw [loneAt_zero_iff, Bool.or_eq_true]
  refine or_congr_left (and_iff_left_of_imp fun hhigh other hother ↦ ?_)
  obtain rfl := Option.some.inj hother
  exact Bool.not_eq_true _ ▸ fun hlow ↦ hpair (Bool.and_eq_true_iff.mpr ⟨hhigh, hlow⟩)

theorem not_loneAt_zero_of_pair (hhigh : isHighSurrogate unit = true)
    (hlow : isLowSurrogate next = true) : ¬ LoneAt (unit :: next :: rest) 0 := by
  rw [loneAt_zero_iff]
  rintro (⟨-, hnext⟩ | hother)
  · exact absurd hlow (Bool.not_eq_true _ ▸ hnext next rfl)
  · exact absurd hhigh (Bool.not_eq_true _ ▸ isHighSurrogate_of_low hother)

theorem not_loneAt_one_of_pair (hhigh : isHighSurrogate unit = true)
    (hlow : isLowSurrogate next = true) : ¬ LoneAt (unit :: next :: rest) 1 := by
  rintro (⟨_, ⟨⟩, hother, -⟩ | ⟨_, ⟨⟩, -, hbefore⟩)
  · exact absurd hother (Bool.not_eq_true _ ▸ isHighSurrogate_of_low hlow)
  · exact absurd hhigh (Bool.not_eq_true _ ▸ hbefore 0 rfl unit rfl)

/-- No surrogate is alone in a text that begins with a pair, if none is behind the pair. -/
theorem forall_not_loneAt_of_pair (hhigh : isHighSurrogate unit = true)
    (hlow : isLowSurrogate next = true) :
    (∀ index, ¬ LoneAt (unit :: next :: rest) index) ↔ ∀ index, ¬ LoneAt rest index := by
  have hrest (index : Nat) : LoneAt (unit :: next :: rest) (index + 2) ↔ LoneAt rest index :=
    loneAt_cons_succ_succ.trans (loneAt_cons_succ (isHighSurrogate_of_low hlow))
  refine ⟨fun h index hlone ↦ h (index + 2) ((hrest index).mpr hlone), fun h index ↦ ?_⟩
  rcases index with _ | _ | index
  · exact not_loneAt_zero_of_pair hhigh hlow
  · exact not_loneAt_one_of_pair hhigh hlow
  · exact fun hlone ↦ h index ((hrest index).mp hlone)

/-- Nor in a text whose first unit is no surrogate, if none is behind it. -/
theorem forall_not_loneAt_of_unpaired
    (hfirst : LoneAt (unit :: rest) 0 ↔ (isHighSurrogate unit || isLowSurrogate unit) = true) :
    (∀ index, ¬ LoneAt (unit :: rest) index) ↔
      ¬ (isHighSurrogate unit || isLowSurrogate unit) = true ∧ ∀ index, ¬ LoneAt rest index := by
  have hrest (hnone : ¬ (isHighSurrogate unit || isLowSurrogate unit) = true) (index : Nat) :
      LoneAt (unit :: rest) (index + 1) ↔ LoneAt rest index := by
    rw [Bool.or_eq_true, not_or] at hnone
    exact loneAt_cons_succ (Bool.not_eq_true _ ▸ hnone.1)
  constructor
  · intro h
    have hnone := hfirst.not.mp (h 0)
    exact ⟨hnone, fun index ↦ (hrest hnone index).not.mp (h (index + 1))⟩
  · rintro ⟨hnone, h⟩ (_ | index)
    · exact hfirst.not.mpr hnone
    · exact (hrest hnone index).not.mpr (h index)

/-- A text is paired up exactly if no surrogate is alone. -/
theorem paired_iff (text : List UInt16) : Paired text ↔ ∀ index, ¬ LoneAt text index := by
  induction text using ofUtf16.induct with
  | case1 => simp [Paired, LoneAt]
  | case2 unit =>
    have hnone (index : Nat) : ¬ LoneAt [] index := by
      simp [LoneAt]
    have hfirst : LoneAt [unit] 0 ↔ (isHighSurrogate unit || isLowSurrogate unit) = true := by
      simp [loneAt_zero_iff]
    rw [Paired, forall_not_loneAt_of_unpaired hfirst, and_iff_left hnone]
  | case3 unit next rest hpair ih =>
    obtain ⟨hhigh, hlow⟩ := Bool.and_eq_true_iff.mp hpair
    rw [Paired, if_pos hpair, ih, forall_not_loneAt_of_pair hhigh hlow]
  | case4 unit next rest hpair ih =>
    rw [Paired, if_neg hpair, ih,
      forall_not_loneAt_of_unpaired (loneAt_zero_of_not_pair hpair)]

end

namespace ModifiedUtf8

/-! ### Groups by the bits of their bytes -/

/-- One group of bytes, `0xxxxxxx` but for zero, `110xxxxx 10xxxxxx` or
`1110xxxx 10xxxxxx 10xxxxxx`, and the unit that the bits `x` make up. -/
inductive Group : Bytes → UInt16 → Prop
  | one {a : UInt8} (ha : 0x01 ≤ a.toNat ∧ a.toNat ≤ 0x7F) : Group [a] a.toUInt16
  | two {a b : UInt8} (ha : a.toNat / 32 = 0b110) (hb : b.toNat / 64 = 0b10) :
    Group [a, b] (unitOfTwo a b)
  | three {a b c : UInt8} (ha : a.toNat / 16 = 0b1110) (hb : b.toNat / 64 = 0b10)
      (hc : c.toNat / 64 = 0b10) : Group [a, b, c] (unitOfThree a b c)

/-- The byte string is these groups, one behind the other. -/
structure Splits (raw : Bytes) (parts : List (Bytes × UInt16)) : Prop where
  bytes : raw = (parts.map Prod.fst).flatten
  groups : ∀ part ∈ parts, Group part.1 part.2

/-- A shorter group spells the same unit. -/
def Overlong (part : Bytes × UInt16) : Prop :=
  ∃ shorter, Group shorter part.2 ∧ shorter.length < part.1.length

theorem isContinuation_iff {byte : UInt8} :
    isContinuation byte = true ↔ byte.toNat / 64 = 0b10 := by
  simp only [isContinuation, Bool.and_eq_true, decide_eq_true_eq]
  omega

theorem Splits.cons {group raw : Bytes} {unit : UInt16} {parts : List (Bytes × UInt16)}
    (hgroup : Group group unit) (h : Splits raw parts) :
    Splits (group ++ raw) ((group, unit) :: parts) where
  bytes := by rw [List.map_cons, List.flatten_cons, ← h.bytes]
  groups := List.forall_mem_cons.mpr ⟨hgroup, h.groups⟩

/-- What the decoder reads is cut into groups. -/
theorem groups_iff {raw : Bytes} {text : List UInt16} :
    Groups raw text ↔ ∃ parts, Splits raw parts ∧ parts.map Prod.snd = text := by
  constructor
  · intro h
    induction h with
    | nil => exact ⟨[], ⟨rfl, nofun⟩, rfl⟩
    | one ha _ ih =>
      obtain ⟨parts, hparts, rfl⟩ := ih
      exact ⟨_, hparts.cons (.one ha), rfl⟩
    | two ha hb _ ih =>
      obtain ⟨parts, hparts, rfl⟩ := ih
      exact ⟨_, hparts.cons (.two (by omega) (isContinuation_iff.mp hb)), rfl⟩
    | three ha hb hc _ ih =>
      obtain ⟨parts, hparts, rfl⟩ := ih
      exact ⟨_, hparts.cons (.three (by omega) (isContinuation_iff.mp hb)
        (isContinuation_iff.mp hc)), rfl⟩
  · rintro ⟨parts, ⟨rfl, hgroups⟩, rfl⟩
    induction parts with
    | nil => exact .nil
    | cons part parts ih =>
      obtain ⟨group, unit⟩ := part
      obtain ⟨hgroup, hrest⟩ := List.forall_mem_cons.mp hgroups
      rw [List.map_cons, List.flatten_cons, List.map_cons]
      cases hgroup with
      | one ha => exact .one ha (ih hrest)
      | two ha hb => exact .two (by omega) (isContinuation_iff.mpr hb) (ih hrest)
      | three ha hb hc =>
        exact .three (by omega) (isContinuation_iff.mpr hb) (isContinuation_iff.mpr hc) (ih hrest)

/-- The first byte tells how long a group is, so none is the beginning of another one. -/
theorem Group.eq_of_append_eq {first second front back : Bytes} {unit other : UInt16}
    (hfirst : Group first unit) (hsecond : Group second other)
    (h : first ++ front = second ++ back) : first = second ∧ unit = other ∧ front = back := by
  cases hfirst <;> cases hsecond <;>
    simp only [List.cons_append, List.nil_append, List.cons.injEq] at h
  case one.one => exact ⟨by rw [h.1], by rw [h.1], h.2⟩
  case two.two => exact ⟨by rw [h.1, h.2.1], by rw [h.1, h.2.1], h.2.2⟩
  case three.three => exact ⟨by rw [h.1, h.2.1, h.2.2.1], by rw [h.1, h.2.1, h.2.2.1], h.2.2.2⟩
  all_goals
    obtain ⟨rfl, -⟩ := h
    omega

theorem Group.ne_nil {group : Bytes} {unit : UInt16} (h : Group group unit) : group ≠ [] := by
  cases h <;> exact List.cons_ne_nil _ _

/-- A byte string is cut into groups in one way only. -/
theorem Splits.unique {raw : Bytes} {parts others : List (Bytes × UInt16)}
    (h : Splits raw parts) (hother : Splits raw others) : others = parts := by
  induction parts generalizing raw others with
  | nil =>
    obtain ⟨rfl, -⟩ := h
    cases others with
    | nil => rfl
    | cons other others =>
      have hnil := hother.bytes
      rw [List.map_cons, List.flatten_cons] at hnil
      exact absurd (List.append_eq_nil_iff.mp hnil.symm).1
        (hother.groups _ List.mem_cons_self).ne_nil
  | cons part parts ih =>
    obtain ⟨hpart, hparts⟩ := List.forall_mem_cons.mp h.groups
    have hraw := h.bytes
    rw [List.map_cons, List.flatten_cons] at hraw
    cases others with
    | nil =>
      have hnil := hother.bytes
      rw [hraw] at hnil
      exact absurd (List.append_eq_nil_iff.mp hnil).1 hpart.ne_nil
    | cons other others =>
      obtain ⟨hfirst, hothers⟩ := List.forall_mem_cons.mp hother.groups
      have hsame := hother.bytes
      rw [hraw, List.map_cons, List.flatten_cons] at hsame
      obtain ⟨hbytes, hunit, hrest⟩ := hpart.eq_of_append_eq hfirst hsame
      rw [ih ⟨rfl, hparts⟩ ⟨hrest, hothers⟩, Prod.ext hbytes hunit]

theorem Group.byte_bounds {group : Bytes} {unit : UInt16} (h : Group group unit) :
    ∀ byte ∈ group, 0 < byte.toNat ∧ byte.toNat < 0xF0 := by
  cases h <;> simp <;> omega

theorem Splits.byte_bounds {raw : Bytes} {parts : List (Bytes × UInt16)} (h : Splits raw parts) :
    ∀ byte ∈ raw, 0 < byte.toNat ∧ byte.toNat < 0xF0 := by
  intro byte hbyte
  rw [h.bytes] at hbyte
  obtain ⟨group, hgroup, hmem⟩ := List.mem_flatten.mp hbyte
  obtain ⟨part, hpart, rfl⟩ := List.mem_map.mp hgroup
  exact (h.groups part hpart).byte_bounds byte hmem

/-! ### Overlong groups -/

theorem group_encodeUnit (unit : UInt16) : Group (encodeUnit unit) unit := by
  obtain ⟨parts, hparts, hunits⟩ := groups_iff.mp (Groups.nil.encodeUnit unit)
  obtain ⟨part, rfl, hunit⟩ := List.map_eq_singleton_iff.mp hunits
  have hgroup := hparts.groups part List.mem_cons_self
  have hbytes := hparts.bytes
  rw [List.append_nil, List.map_singleton, List.flatten_singleton] at hbytes
  rwa [hbytes, ← hunit]

/-- The encoder writes no group that is longer than another one for its unit. -/
theorem Group.length_encodeUnit_le {group : Bytes} {unit : UInt16} (h : Group group unit) :
    (encodeUnit unit).length ≤ group.length := by
  cases h with
  | one ha => exact Nat.le_of_eq (congrArg List.length (encodeUnit_of_one ha))
  | two ha hb => exact (encodeUnit_unitOfTwo (by omega) (isContinuation_iff.mpr hb)).1
  | three ha hb hc => exact ModifiedUtf8.length_encodeUnit_le _

theorem overlong_iff {part : Bytes × UInt16} :
    Overlong part ↔ (encodeUnit part.2).length < part.1.length := by
  constructor
  · rintro ⟨shorter, hgroup, hlt⟩
    exact Nat.lt_of_le_of_lt hgroup.length_encodeUnit_le hlt
  · exact fun h ↦ ⟨_, group_encodeUnit part.2, h⟩

theorem length_encodeUnit_lt_two_iff (unit : UInt16) :
    (encodeUnit unit).length < 2 ↔ ¬ (unit.toNat = 0 ∨ 0x7F < unit.toNat) := by
  rw [encodeUnit]
  split
  · exact iff_of_true (by simp) (by omega)
  · refine iff_of_false ?_ (by omega)
    split <;> simp

theorem length_encodeUnit_lt_three_iff (unit : UInt16) :
    (encodeUnit unit).length < 3 ↔ ¬ 0x7FF < unit.toNat := by
  rw [encodeUnit]
  split
  · exact iff_of_true (by simp) (by omega)
  · split
    · exact iff_of_true (by simp) (by omega)
    · exact iff_of_false (by simp) (by omega)

/-- No group could have been shorter exactly if none is overlong. -/
theorem Splits.shortest_iff {raw : Bytes} {parts : List (Bytes × UInt16)} (h : Splits raw parts) :
    Shortest raw ↔ ∀ part ∈ parts, ¬ Overlong part := by
  obtain ⟨rfl, hgroups⟩ := h
  induction parts with
  | nil => exact iff_of_true .nil nofun
  | cons part parts ih =>
    obtain ⟨group, unit⟩ := part
    obtain ⟨hgroup, hrest⟩ := List.forall_mem_cons.mp hgroups
    rw [List.forall_mem_cons, ← ih hrest, List.map_cons, List.flatten_cons, overlong_iff]
    cases hgroup with
    | @one a ha =>
      refine (shortest_one_iff ha).trans (and_iff_right ?_).symm
      change ¬ (encodeUnit a.toUInt16).length < [a].length
      rw [encodeUnit_of_one ha]
      exact Nat.lt_irrefl _
    | two ha hb =>
      refine (shortest_two_iff (by omega) (isContinuation_iff.mpr hb)).trans (and_congr_left' ?_)
      exact iff_not_comm.mp (length_encodeUnit_lt_two_iff _)
    | three ha hb hc =>
      refine (shortest_three_iff (by omega) (isContinuation_iff.mpr hb)
        (isContinuation_iff.mpr hc)).trans (and_congr_left' ?_)
      exact iff_not_comm.mp (length_encodeUnit_lt_three_iff _)

/-! ### The codec -/

/-- The decoder answers exactly on what can be cut into groups. -/
theorem exists_decode_iff {raw : Bytes} :
    (∃ text, decode raw = some text) ↔ ∃ parts, Splits raw parts := by
  constructor
  · rintro ⟨text, htext⟩
    obtain ⟨units, hunits, -⟩ := encode_of_decode htext
    obtain ⟨parts, hparts, -⟩ := groups_iff.mp hunits
    exact ⟨parts, hparts⟩
  · rintro ⟨parts, hparts⟩
    have hunits := decodeUnits_eq_some_iff.mpr (groups_iff.mpr ⟨parts, hparts, rfl⟩)
    exact ⟨_, by rw [decode, hunits, Option.map_some]⟩

theorem Splits.canonical_iff {raw : Bytes} {parts : List (Bytes × UInt16)} (h : Splits raw parts) :
    Canonical raw ↔ (∀ part ∈ parts, ¬ Overlong part) ∧
      ∀ index, ¬ LoneAt (parts.map Prod.snd) index := by
  have hunits := decodeUnits_eq_some_iff.mpr (groups_iff.mpr ⟨parts, h, rfl⟩)
  rw [Canonical, h.shortest_iff, ← paired_iff, hunits]
  refine and_congr_right fun _ ↦ ⟨?_, fun hpaired ↦ ⟨_, rfl, hpaired⟩⟩
  rintro ⟨units, hsame, hpaired⟩
  rwa [Option.some.inj hsame]

/-- Every text is decoded as it was encoded, and its encoding holds no zero and no byte from `0xF0`
on. The decoder answers exactly on concatenations of groups. What it has read is cut into groups in
one way; it is encoded in no more bytes, and in the same bytes exactly if no group is overlong and
no surrogate is alone. -/
theorem codec_of_groups :
    (∀ text : String, decode (encode text) = some text ∧
      ∀ byte ∈ encode text, 0 < byte.toNat ∧ byte.toNat < 0xF0) ∧
    (∀ raw : Bytes, (∃ text, decode raw = some text) ↔ ∃ parts, Splits raw parts) ∧
    ∀ (raw : Bytes) (text : String), decode raw = some text →
      ∃ parts, Splits raw parts ∧ (∀ others, Splits raw others → others = parts) ∧
        (encode text).length ≤ raw.length ∧
        (encode text = raw ↔ (∀ part ∈ parts, ¬ Overlong part) ∧
          ∀ index, ¬ LoneAt (parts.map Prod.snd) index) := by
  refine ⟨fun text ↦ ⟨decode_of_encode text, ?_⟩, fun _ ↦ exists_decode_iff,
    fun raw text htext ↦ ?_⟩
  · obtain ⟨parts, hparts⟩ := exists_decode_iff.mp ⟨text, decode_of_encode text⟩
    exact hparts.byte_bounds
  · obtain ⟨parts, hparts⟩ := exists_decode_iff.mp ⟨text, htext⟩
    exact ⟨parts, hparts, fun _ ↦ hparts.unique, length_encode_le htext,
      (encode_eq_iff htext).trans hparts.canonical_iff⟩

/-- An overlong `A` in front of a high surrogate that is alone: five bytes are decoded, and four
other ones are written for them. -/
theorem codec_of_groups_outgrown :
    decode [0xC1, 0x81, 0xED, 0xA0, 0x80] = some "A\uFFFD" ∧
      encode "A\uFFFD" = [0x41, 0xEF, 0xBF, 0xBD] ∧
      ∃ parts, Splits [0xC1, 0x81, 0xED, 0xA0, 0x80] parts ∧
        ¬ ((∀ part ∈ parts, ¬ Overlong part) ∧ ∀ index, ¬ LoneAt (parts.map Prod.snd) index) := by
  have hdecode : decode [0xC1, 0x81, 0xED, 0xA0, 0x80] = some "A\uFFFD" := by decide
  have hencode : encode "A\uFFFD" = [0x41, 0xEF, 0xBF, 0xBD] := by decide
  obtain ⟨parts, hparts, -, -, hsame⟩ := codec_of_groups.2.2 _ _ hdecode
  refine ⟨hdecode, hencode, parts, hparts, fun hcanonical ↦ ?_⟩
  cases hencode.symm.trans (hsame.mpr hcanonical)

end ModifiedUtf8

end ClassWeaver.Text
