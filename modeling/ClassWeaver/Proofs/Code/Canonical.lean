import ClassWeaver.Proofs.Code.Sessions

/-!
Which code is written back as it was read.

Three things are forgotten when an instruction is read: a `wide` that it did not need, what stands
in front of the operands of a switch to align them, and the bytes that are reserved behind two kinds
of calls. An instruction without any of them is canonical. It was spelled by the bytes that are
written for it where its targets have not moved, and any other instruction by bytes that are never
written for it (`Spelled`). A superfluous `wide` would let everything behind it move up, but by then
the first byte of its instruction differs already. `assemble_decode_iff` puts this together.
-/

set_option autoImplicit false
set_option relaxedAutoImplicit false

namespace ClassWeaver.Code

open ClassWeaver.Parser

/-! ### Canonical instructions -/

/-- The word that begins with the byte at an index. -/
def wordAt (bytes : Bytes) (index : Nat) : UInt16 :=
  word16 (bytes.getD index 0) (bytes.getD (index + 1) 0)

/-- What stands behind a `wide` does not fit without it: its index takes two bytes, or what it adds
to a variable does. -/
def NeedsWide (widened : Bytes) : Prop :=
  narrowIndex < wordAt widened 1 ∨
    widened.head? = some Opcode.iinc ∧ ¬fitsByte (wordAt widened 3).toInt16.toInt

/-- Behind an opcode of the form, at `offset`, stands none of the bytes that are forgotten: no
`wide` was superfluous, the operands of a switch are aligned by zeros, and reserved bytes are
zero. -/
def Form.Canonical (offset : Nat) (others : Bytes) : Form → Prop
  | .wide => NeedsWide others
  | .tableSwitch | .lookupSwitch =>
    others.take (switchPadding offset) = List.replicate (switchPadding offset) 0
  | .interfaceCall => others.getD 3 0 = 0
  | .dynamicCall => others.getD 2 0 = 0 ∧ others.getD 3 0 = 0
  | _ => True

/-- The instruction at the front of `code`, which begins at `offset`, has none of the bytes that are
forgotten. -/
def Canonical (offset : Nat) : (code : Bytes) → Prop
  | [] => True
  | opcode :: others => ∀ form ∈ Opcode.form? opcode, form.Canonical offset others

instance (widened : Bytes) : Decidable (NeedsWide widened) :=
  inferInstanceAs (Decidable (narrowIndex < wordAt widened 1 ∨
    widened.head? = some Opcode.iinc ∧ ¬fitsByte (wordAt widened 3).toInt16.toInt))

instance (offset : Nat) (others : Bytes) : (form : Form) → Decidable (form.Canonical offset others)
  | .wide => inferInstanceAs (Decidable (NeedsWide others))
  | .tableSwitch | .lookupSwitch => inferInstanceAs (Decidable
    (others.take (switchPadding offset) = List.replicate (switchPadding offset) 0))
  | .interfaceCall => inferInstanceAs (Decidable (others.getD 3 0 = 0))
  | .dynamicCall => inferInstanceAs (Decidable (others.getD 2 0 = 0 ∧ others.getD 3 0 = 0))
  | .plain | .byte | .short | .narrowConstant | .constant | .slot | .increment | .branch
  | .wideBranch | .arrayType | .multiArray => .isTrue trivial

instance (offset : Nat) : (code : Bytes) → Decidable (Canonical offset code)
  | [] => .isTrue trivial
  | opcode :: others => inferInstanceAs (Decidable
    (∀ form ∈ Opcode.form? opcode, form.Canonical offset others))

theorem canonical_cons_iff {offset : Nat} {opcode : Opcode} {form : Form} {others : Bytes}
    (hform : opcode.form? = some form) :
    Canonical offset (opcode :: others) ↔ form.Canonical offset others := by
  refine ⟨fun h ↦ h form hform, fun h other hother ↦ ?_⟩
  obtain rfl : form = other := Option.some.inj (hform.symm.trans hother)
  exact h

/-- What was read at `offset`, as an instruction of its body. -/
def Reading.located (reading : Reading) (offset : Nat) : Instruction :=
  ⟨reading.opcode, reading.operand, some offset⟩

/-- The instructions pave the code, which begins at `offset`: each is read where the one in front of
it ends, and the code ends with the last one. -/
inductive Paved : (offset : Nat) → (code : Bytes) → List Instruction → Prop
  | nil (offset : Nat) : Paved offset [] []
  | cons {offset : Nat} {front rest : Bytes} {reading : Reading} {others : List Instruction}
      (hread : Reading.next offset (front ++ rest) = .ok (reading, rest))
      (hwidth : front.length = reading.width)
      (hrest : Paved (offset + reading.width) rest others) :
      Paved offset (front ++ rest) (reading.located offset :: others)

/-! ### Distances that were read -/

/-- No target of the operand has moved. -/
def Stays (relocation : Relocation) (operand : Operand) : Prop :=
  ∀ target ∈ operand.targets, relocation.map target = .ok target

section Distances

variable {relocation : Relocation} {offset target : Nat}

theorem jumpTarget_eq_ok {distance : Int} (h : jumpTarget offset distance = .ok target) :
    (target : Int) = offset + distance := by
  unfold jumpTarget at h
  dsimp only at h
  split at h
  · rename_i hrange
    obtain rfl := Except.ok.inj h
    exact Int.toNat_of_nonneg hrange.1
  · cases h

theorem distance_of_stays {distance : Int} (hmap : relocation.map target = .ok target)
    (htarget : (target : Int) = offset + distance) :
    relocation.distance offset target = .ok distance := by
  refine except_bind_eq_ok.mpr ⟨target, hmap, congrArg Except.ok ?_⟩
  omega

theorem signed32_toInt (value : Int32) : signed32 value.toInt = bytes32 value.toUInt32 := by
  rw [signed32, Int32.ofInt_toInt]

theorem i4_eq_ok {input rest : Bytes} {value : Int32}
    (h : Reading.i4 offset input = .ok (value, rest)) : input = bytes32 value.toUInt32 ++ rest := by
  obtain ⟨word, middle, hword, h⟩ := bind_eq_ok.mp h
  obtain ⟨rfl, rfl⟩ := pure_eq_ok.mp h
  rw [UInt32.toUInt32_toInt32]
  exact spells_u4 _ _ _ _ hword

/-- The bytes are written for the target as long as it stays. -/
def SpellsTarget (offset target : Nat) (front : Bytes) : Prop :=
  ∃ distance : Int, front = signed32 distance ∧ (target : Int) = offset + distance

theorem farTarget_eq_ok {input rest : Bytes}
    (h : Reading.farTarget offset input = .ok (target, rest)) :
    ∃ front, input = front ++ rest ∧ SpellsTarget offset target front := by
  obtain ⟨distance, middle, hdistance, h⟩ := bind_eq_ok.mp h
  obtain ⟨htarget, rfl⟩ := lift_eq_ok.mp h
  exact ⟨_, i4_eq_ok hdistance, distance.toInt, (signed32_toInt distance).symm,
    jumpTarget_eq_ok htarget⟩

/-- The bytes are written for the row as long as its target stays. -/
def SpellsRow (offset : Nat) (row : Int32 × Nat) (front : Bytes) : Prop :=
  ∃ last, front = bytes32 row.1.toUInt32 ++ last ∧ SpellsTarget offset row.2 last

theorem lookupRow_eq_ok {input rest : Bytes} {row : Int32 × Nat}
    (h : Reading.lookupRow offset input = .ok (row, rest)) :
    ∃ front, input = front ++ rest ∧ SpellsRow offset row front := by
  obtain ⟨key, middle, hkey, h⟩ := bind_eq_ok.mp h
  obtain ⟨target, last, htarget, h⟩ := bind_eq_ok.mp h
  obtain ⟨rfl, rfl⟩ := pure_eq_ok.mp h
  obtain ⟨front, rfl, hfront⟩ := farTarget_eq_ok htarget
  exact ⟨_, by rw [i4_eq_ok hkey, List.append_assoc], front, rfl, hfront⟩

/-- Items that are read one after the other stand one after the other. -/
theorem times_eq_ok {α : Type} {ε : Type} {item : Parser ε α} {spells : α → Bytes → Prop}
    (hitem : ∀ input value rest, item input = .ok (value, rest) →
      ∃ front, input = front ++ rest ∧ spells value front)
    {count : Nat} {input rest : Bytes} {values : List α}
    (h : times item count input = .ok (values, rest)) :
    ∃ fronts : List Bytes, input = fronts.flatten ++ rest ∧ List.Forall₂ spells values fronts := by
  induction count generalizing input values with
  | zero =>
    obtain ⟨rfl, rfl⟩ := pure_eq_ok.mp h
    exact ⟨[], rfl, .nil⟩
  | succ count ih =>
    obtain ⟨first, middle, hfirst, h⟩ := bind_eq_ok.mp h
    obtain ⟨others, last, hothers, h⟩ := bind_eq_ok.mp h
    obtain ⟨rfl, rfl⟩ := pure_eq_ok.mp h
    obtain ⟨front, rfl, hfront⟩ := hitem _ _ _ hfirst
    obtain ⟨fronts, rfl, hfronts⟩ := ih hothers
    exact ⟨front :: fronts, by rw [List.flatten_cons, List.append_assoc], .cons hfront hfronts⟩

/-- Items are written one after the other as each of them is written. -/
theorem exists_mapM {α β : Type} {ε : Type} {step : α → Except ε β} {print : β → Bytes}
    {values : List α} {fronts : List Bytes}
    (h : List.Forall₂ (fun value front ↦ ∃ result, step value = .ok result ∧ front = print result)
      values fronts) :
    ∃ results, values.mapM step = .ok results ∧ fronts.flatten = results.flatMap print := by
  induction h with
  | nil => exact ⟨[], rfl, rfl⟩
  | cons hfirst _ ih =>
    obtain ⟨result, hresult, rfl⟩ := hfirst
    obtain ⟨results, hresults, hflatten⟩ := ih
    refine ⟨result :: results, ?_, by rw [List.flatten_cons, hflatten, List.flatMap_cons]⟩
    rw [List.mapM_cons]
    exact except_bind_eq_ok.mpr ⟨result, hresult, except_bind_eq_ok.mpr ⟨results, hresults, rfl⟩⟩

theorem SpellsTarget.distance {front : Bytes} (h : SpellsTarget offset target front)
    (hmap : relocation.map target = .ok target) :
    ∃ distance, relocation.distance offset target = .ok distance ∧ front = signed32 distance := by
  obtain ⟨distance, hfront, htarget⟩ := h
  exact ⟨distance, distance_of_stays hmap htarget, hfront⟩

theorem SpellsRow.encodeRow {front : Bytes} {row : Int32 × Nat} (h : SpellsRow offset row front)
    (hmap : relocation.map row.2 = .ok row.2) : encodeRow relocation offset row = .ok front := by
  obtain ⟨last, rfl, hlast⟩ := h
  obtain ⟨distance, hdistance, rfl⟩ := hlast.distance hmap
  exact except_bind_eq_ok.mpr ⟨distance, hdistance, rfl⟩

end Distances

/-! ### How instructions were spelled -/

theorem Opcode.eq_wide {opcode : Opcode} (h : opcode.form? = some .wide) : opcode = .wide := by
  have hall : ∀ n : Fin 256, Opcode.form? (UInt8.ofNat n) = some .wide →
      UInt8.ofNat n = Opcode.wide := by decide +kernel
  have hopcode := hall ⟨opcode.toNat, opcode.toNat_lt⟩
  simp only [UInt8.ofNat_toNat] at hopcode
  exact hopcode h

/-- How an instruction was spelled that was read from `front`, at `offset`. -/
inductive Spelled (offset : Nat) (reading : Reading) (front : Bytes) : Prop
  /-- By the bytes that are written for it as long as its targets stay. -/
  | exactly (hsize : (reading.located offset).size offset = reading.width)
      (hencode : ∀ relocation, Stays relocation reading.operand →
        (reading.located offset).encode relocation offset = .ok front)
      (hcanonical : ∀ rest, Canonical offset (front ++ rest))
  /-- With `spelled` where `written` is written in any case. -/
  | loosely (spelled written : Bytes) {last : Bytes} (hfront : front = spelled ++ last)
      (hlength : spelled.length = written.length) (hne : spelled ≠ written)
      (hencode : ∀ relocation bytes, (reading.located offset).encode relocation offset = .ok bytes →
        written <+: bytes)
      (hcanonical : ∀ rest, ¬Canonical offset (front ++ rest))

theorem fitsByte_toInt16 (amount : Int8) : fitsByte amount.toInt16.toInt = true := by
  have hlow := amount.le_toInt
  have hhigh := amount.toInt_lt
  rw [Int8.toInt_toInt16]
  simp only [fitsByte, Bool.and_eq_true, decide_eq_true_eq]
  omega

theorem fitsShort_toInt (value : Int16) : fitsShort value.toInt = true := by
  have hlow := value.le_toInt
  have hhigh := value.toInt_lt
  simp only [fitsShort, Bool.and_eq_true, decide_eq_true_eq]
  omega

theorem ofNat_toInt {value : Int32} (h : ¬value.toInt < 0) :
    UInt32.ofNat value.toInt.toNat = value.toUInt32 := by
  have hlt := value.toUInt32.toNat_lt
  have hvalue : value.toInt = if 2 * value.toUInt32.toNat < 2 ^ 32 then
      (value.toUInt32.toNat : Int) else value.toUInt32.toNat - 2 ^ 32 :=
    BitVec.toInt_eq_toNat_cond _
  apply UInt32.toNat_inj.mp
  rw [UInt32.toNat_ofNat']
  split at hvalue
  · omega
  · omega

namespace Reading

variable {offset : Nat} {opcode : Opcode} {input rest : Bytes} {reading : Reading}

theorem spelled_exactly {form : Form} {others : Bytes} (hform : opcode.form? = some form)
    (hsize : (reading.located offset).size offset = reading.width)
    (hencode : ∀ relocation, Stays relocation reading.operand →
      (reading.located offset).encode relocation offset = .ok (opcode :: others))
    (hcanonical : ∀ rest, form.Canonical offset (others ++ rest)) :
    Spelled offset reading (opcode :: others) :=
  .exactly hsize hencode fun rest ↦ (canonical_cons_iff hform).mpr (hcanonical rest)

theorem canonical_wideSlot_iff {index : UInt16} (hform : opcode.form? = some .slot) :
    Canonical offset (Opcode.wide :: opcode :: (bytes16 index ++ rest)) ↔ narrowIndex < index := by
  have hother : some opcode ≠ some Opcode.iinc := by
    rintro ⟨⟩
    cases hform
  have hindex : wordAt (opcode :: (bytes16 index ++ rest)) 1 = index := word16_bytes16 index
  refine (canonical_cons_iff (rfl : Opcode.form? .wide = some .wide)).trans ?_
  rw [Form.Canonical, NeedsWide, hindex]
  exact or_iff_left fun hincrement ↦ hother hincrement.1

theorem canonical_wideIncrement_iff {index amount : UInt16} :
    Canonical offset (Opcode.wide :: Opcode.iinc :: (bytes16 index ++ (bytes16 amount ++ rest))) ↔
      narrowIndex < index ∨ ¬fitsByte amount.toInt16.toInt := by
  have hindex : wordAt (Opcode.iinc :: (bytes16 index ++ (bytes16 amount ++ rest))) 1 = index :=
    word16_bytes16 index
  have hamount : wordAt (Opcode.iinc :: (bytes16 index ++ (bytes16 amount ++ rest))) 3 = amount :=
    word16_bytes16 amount
  refine (canonical_cons_iff (rfl : Opcode.form? .wide = some .wide)).trans ?_
  rw [Form.Canonical, NeedsWide, hindex, hamount]
  exact or_congr_right (and_iff_right rfl)

/-- An operand behind a `wide` is written without it if it can be. -/
theorem spelled_widened (h : widened offset opcode input = .ok (reading, rest)) :
    ∃ others, input = others ++ rest ∧
      Spelled offset reading (Opcode.wide :: opcode :: others) := by
  unfold widened at h
  generalize hform : opcode.form? = form at h
  split at h
  · obtain rfl : opcode = .iinc := (Opcode.form?_eq_some hform).2.1.mpr rfl
    obtain ⟨index, middle, hindex, h⟩ := bind_eq_ok.mp h
    obtain ⟨amount, last, hamount, h⟩ := bind_eq_ok.mp h
    obtain ⟨rfl, rfl⟩ := pure_eq_ok.mp h
    refine ⟨bytes16 index ++ bytes16 amount, ?_, ?_⟩
    · rw [spells_u2 _ _ _ _ hindex, spells_u2 _ _ _ _ hamount, List.append_assoc]
    by_cases hlarge : narrowIndex < index ∨ ¬fitsByte amount.toInt16.toInt
    · refine .exactly (if_pos hlarge) (fun relocation _ ↦ ?_) fun rest ↦
        canonical_wideIncrement_iff.mpr hlarge
      refine (if_pos hlarge).trans ?_
      rw [UInt16.toUInt16_toInt16]
      rfl
    · refine .loosely [Opcode.wide] [Opcode.iinc] rfl rfl (by decide) ?_
        fun rest hcanonical ↦ hlarge (canonical_wideIncrement_iff.mp hcanonical)
      intro relocation bytes hbytes
      cases (if_neg hlarge).symm.trans hbytes
      exact ⟨_, rfl⟩
  · obtain ⟨index, middle, hindex, h⟩ := bind_eq_ok.mp h
    obtain ⟨rfl, rfl⟩ := pure_eq_ok.mp h
    refine ⟨bytes16 index, spells_u2 _ _ _ _ hindex, ?_⟩
    by_cases hlarge : narrowIndex < index
    · exact .exactly (if_pos hlarge) (fun relocation _ ↦ if_pos hlarge) fun rest ↦
        (canonical_wideSlot_iff hform).mpr hlarge
    · have hother : [Opcode.wide] ≠ [opcode] := fun hsame ↦ by
        obtain ⟨rfl, -⟩ := List.cons.inj hsame
        cases hform
      refine .loosely [Opcode.wide] [opcode] rfl rfl hother ?_
        fun rest hcanonical ↦ hlarge ((canonical_wideSlot_iff hform).mp hcanonical)
      intro relocation bytes hbytes
      cases (if_neg hlarge).symm.trans hbytes
      exact ⟨_, rfl⟩
  · exact absurd h throw_ne_ok

section Switches

variable {padding operands : Bytes}
  (hform : opcode.form? = some .tableSwitch ∨ opcode.form? = some .lookupSwitch)
  (hlength : padding.length = switchPadding offset)
include hform hlength

theorem canonical_switch_iff :
    Canonical offset (opcode :: (padding ++ rest)) ↔
      padding = List.replicate (switchPadding offset) 0 := by
  have htake : (padding ++ rest).take (switchPadding offset) = padding := by
    rw [← hlength, List.take_left]
  rcases hform with hform | hform
  · rw [canonical_cons_iff hform, Form.Canonical, htake]
  · rw [canonical_cons_iff hform, Form.Canonical, htake]

/-- Whatever aligned the operands of a switch, zeros are written. -/
theorem spelled_switch (hsize : (reading.located offset).size offset = reading.width)
    (hencode : ∀ relocation, Stays relocation reading.operand →
      (reading.located offset).encode relocation offset =
        .ok (opcode :: (List.replicate (switchPadding offset) 0 ++ operands)))
    (hstart : ∀ relocation bytes, (reading.located offset).encode relocation offset = .ok bytes →
      opcode :: List.replicate (switchPadding offset) 0 <+: bytes) :
    Spelled offset reading (opcode :: (padding ++ operands)) := by
  by_cases hzero : padding = List.replicate (switchPadding offset) 0
  · refine .exactly hsize (hzero ▸ hencode) fun rest ↦ ?_
    rw [List.cons_append, List.append_assoc]
    exact (canonical_switch_iff hform hlength).mpr hzero
  · refine .loosely (opcode :: padding) (opcode :: List.replicate (switchPadding offset) 0) rfl
      ?_ ?_ hstart fun rest ↦ ?_
    · rw [List.length_cons, List.length_cons, hlength, List.length_replicate]
    · exact fun hsame ↦ hzero (List.cons.inj hsame).2
    · rw [List.cons_append, List.append_assoc]
      exact fun hcanonical ↦ hzero ((canonical_switch_iff hform hlength).mp hcanonical)

end Switches

theorem spelled_tableSwitch (hform : opcode.form? = some .tableSwitch)
    (h : behind offset opcode .tableSwitch input = .ok (reading, rest)) :
    ∃ others, input = others ++ rest ∧ Spelled offset reading (opcode :: others) := by
  obtain ⟨padding, afterPadding, hpadding, h⟩ := bind_eq_ok.mp h
  obtain ⟨otherwise, afterOtherwise, hotherwise, h⟩ := bind_eq_ok.mp h
  obtain ⟨low, afterLow, hlow, h⟩ := bind_eq_ok.mp h
  obtain ⟨high, afterHigh, hhigh, h⟩ := bind_eq_ok.mp h
  by_cases hempty : high.toInt < low.toInt
  · rw [if_pos hempty] at h
    exact absurd h throw_bind_ne_ok
  · rw [if_neg hempty] at h
    obtain ⟨_, afterRequire, hrequire, h⟩ := bind_eq_ok.mp h
    obtain ⟨targets, afterTargets, htargets, h⟩ := bind_eq_ok.mp h
    obtain ⟨rfl, rfl⟩ := pure_eq_ok.mp h
    obtain rfl := require_eq_ok hrequire
    obtain ⟨rfl, hlength⟩ := take_eq_ok hpadding
    obtain ⟨front, rfl, hfront⟩ := farTarget_eq_ok hotherwise
    obtain rfl := i4_eq_ok hlow
    obtain rfl := i4_eq_ok hhigh
    have hcount := length_of_times htargets
    obtain ⟨fronts, rfl, hfronts⟩ := times_eq_ok (fun _ _ _ ↦ farTarget_eq_ok) htargets
    refine ⟨padding ++ (front ++ (bytes32 low.toUInt32 ++ (bytes32 high.toUInt32 ++
      fronts.flatten))), by simp only [List.append_assoc], ?_⟩
    refine spelled_switch (.inl hform) hlength (by rw [← hcount]; rfl) ?_ ?_
    · intro relocation hstays
      obtain ⟨hmap, hmaps⟩ := List.forall_mem_cons.mp hstays
      obtain ⟨distance, hdistance, rfl⟩ := hfront.distance hmap
      obtain ⟨distances, hdistances, hflatten⟩ := exists_mapM
        (((List.forall₂_and_left ..).mpr ⟨hmaps, hfronts⟩).imp fun _ _ hfront ↦
          hfront.2.distance hfront.1)
      refine except_bind_eq_ok.mpr ⟨_, hdistance, except_bind_eq_ok.mpr ⟨_, hdistances, ?_⟩⟩
      rw [hflatten]
      simp only [List.append_assoc, List.cons_append]
      rfl
    · intro relocation bytes hbytes
      obtain ⟨first, -, hbytes⟩ := except_bind_eq_ok.mp hbytes
      obtain ⟨distances, -, hbytes⟩ := except_bind_eq_ok.mp hbytes
      cases hbytes
      simp only [List.append_assoc, located]
      exact List.prefix_append _ _

theorem spelled_lookupSwitch (hform : opcode.form? = some .lookupSwitch)
    (h : behind offset opcode .lookupSwitch input = .ok (reading, rest)) :
    ∃ others, input = others ++ rest ∧ Spelled offset reading (opcode :: others) := by
  obtain ⟨padding, afterPadding, hpadding, h⟩ := bind_eq_ok.mp h
  obtain ⟨otherwise, afterOtherwise, hotherwise, h⟩ := bind_eq_ok.mp h
  obtain ⟨declared, afterDeclared, hdeclared, h⟩ := bind_eq_ok.mp h
  by_cases hnegative : declared.toInt < 0
  · rw [if_pos hnegative] at h
    exact absurd h throw_bind_ne_ok
  · rw [if_neg hnegative] at h
    obtain ⟨_, afterRequire, hrequire, h⟩ := bind_eq_ok.mp h
    obtain ⟨rows, afterRows, hrows, h⟩ := bind_eq_ok.mp h
    obtain ⟨rfl, rfl⟩ := pure_eq_ok.mp h
    obtain rfl := require_eq_ok hrequire
    obtain ⟨rfl, hlength⟩ := take_eq_ok hpadding
    obtain ⟨front, rfl, hfront⟩ := farTarget_eq_ok hotherwise
    obtain rfl := i4_eq_ok hdeclared
    have hcount := length_of_times hrows
    obtain ⟨fronts, rfl, hfronts⟩ := times_eq_ok (fun _ _ _ ↦ lookupRow_eq_ok) hrows
    refine ⟨padding ++ (front ++ (bytes32 declared.toUInt32 ++ fronts.flatten)),
      by simp only [List.append_assoc], ?_⟩
    refine spelled_switch (.inr hform) hlength (by rw [← hcount]; rfl) ?_ ?_
    · intro relocation hstays
      obtain ⟨hmap, hmaps⟩ := List.forall_mem_cons.mp hstays
      obtain ⟨distance, hdistance, rfl⟩ := hfront.distance hmap
      obtain ⟨encoded, hencoded, hflatten⟩ := exists_mapM
        (((List.forall₂_and_left ..).mpr ⟨List.forall_mem_map.mp hmaps, hfronts⟩).imp
          fun _ front hfront ↦ ⟨front, hfront.2.encodeRow hfront.1, (id_eq front).symm⟩)
      refine except_bind_eq_ok.mpr ⟨_, hdistance, except_bind_eq_ok.mpr ⟨_, hencoded, ?_⟩⟩
      rw [hflatten, hcount, ofNat_toInt hnegative, List.flatMap_id]
      simp only [List.append_assoc, List.cons_append]
      rfl
    · intro relocation bytes hbytes
      obtain ⟨first, -, hbytes⟩ := except_bind_eq_ok.mp hbytes
      obtain ⟨encoded, -, hbytes⟩ := except_bind_eq_ok.mp hbytes
      cases hbytes
      simp only [List.append_assoc, located]
      exact List.prefix_append _ _

/-- Whatever the bytes were that are reserved behind a call, zeros are written. -/
theorem spelled_call {form : Form} {operands reserved : Bytes} (zeros : Bytes)
    (hform : opcode.form? = some form) (hlength : reserved.length = zeros.length)
    (hsize : (reading.located offset).size offset = reading.width)
    (hencode : ∀ relocation, (reading.located offset).encode relocation offset =
      .ok (opcode :: (operands ++ zeros)))
    (hcanonical : ∀ rest, form.Canonical offset (operands ++ (reserved ++ rest)) ↔
      reserved = zeros) :
    Spelled offset reading (opcode :: (operands ++ reserved)) := by
  by_cases hzero : reserved = zeros
  · refine spelled_exactly hform hsize (fun relocation _ ↦ hzero ▸ hencode relocation) fun rest ↦ ?_
    rw [List.append_assoc]
    exact (hcanonical rest).mpr hzero
  · refine .loosely (opcode :: (operands ++ reserved)) (opcode :: (operands ++ zeros))
      (List.append_nil _).symm ?_ ?_ ?_ fun rest ↦ ?_
    · simp only [List.length_cons, List.length_append, hlength]
    · exact fun hsame ↦ hzero (List.append_cancel_left (List.cons.inj hsame).2)
    · intro relocation bytes hbytes
      cases (hencode relocation).symm.trans hbytes
      exact List.prefix_refl _
    · rw [List.cons_append, List.append_assoc, canonical_cons_iff hform, hcanonical rest]
      exact hzero

theorem spelled_narrowConstant (hform : opcode.form? = some .narrowConstant)
    (h : behind offset opcode .narrowConstant input = .ok (reading, rest)) :
    ∃ others, input = others ++ rest ∧ Spelled offset reading (opcode :: others) := by
  obtain rfl := (Opcode.form?_eq_some hform).1.mpr rfl
  obtain ⟨index, middle, hindex, h⟩ := bind_eq_ok.mp h
  obtain ⟨rfl, rfl⟩ := pure_eq_ok.mp h
  refine ⟨[index], spells_u1 _ _ _ _ hindex, spelled_exactly hform ?_ (fun _ _ ↦ ?_) fun _ ↦
    trivial⟩
  · exact if_pos ⟨rfl, narrow_byte index⟩
  · refine (if_pos ⟨rfl, narrow_byte index⟩).trans ?_
    rw [UInt8.toUInt8_toUInt16]
    rfl

theorem spelled_constant (hform : opcode.form? = some .constant)
    (h : behind offset opcode .constant input = .ok (reading, rest)) :
    ∃ others, input = others ++ rest ∧ Spelled offset reading (opcode :: others) := by
  have hother : ¬(opcode = .ldc) := fun hsame ↦
    Form.noConfusion ((Opcode.form?_eq_some hform).1.mp hsame)
  obtain ⟨index, middle, hindex, h⟩ := bind_eq_ok.mp h
  obtain ⟨rfl, rfl⟩ := pure_eq_ok.mp h
  refine ⟨bytes16 index, spells_u2 _ _ _ _ hindex, spelled_exactly hform ?_ (fun _ _ ↦ ?_) fun _ ↦
    trivial⟩
  · exact if_neg fun hboth ↦ hother hboth.1
  · refine (if_neg fun hboth ↦ hother hboth.1).trans ?_
    rw [located, if_neg hother]
    rfl

theorem spelled_slot (hform : opcode.form? = some .slot)
    (h : behind offset opcode .slot input = .ok (reading, rest)) :
    ∃ others, input = others ++ rest ∧ Spelled offset reading (opcode :: others) := by
  obtain ⟨index, middle, hindex, h⟩ := bind_eq_ok.mp h
  obtain ⟨rfl, rfl⟩ := pure_eq_ok.mp h
  have hnarrow := UInt16.not_lt.mpr (narrow_byte index)
  refine ⟨[index], spells_u1 _ _ _ _ hindex, spelled_exactly hform ?_ (fun _ _ ↦ ?_) fun _ ↦
    trivial⟩
  · exact if_neg hnarrow
  · refine (if_neg hnarrow).trans ?_
    rw [UInt8.toUInt8_toUInt16]
    rfl

theorem spelled_increment (hform : opcode.form? = some .increment)
    (h : behind offset opcode .increment input = .ok (reading, rest)) :
    ∃ others, input = others ++ rest ∧ Spelled offset reading (opcode :: others) := by
  obtain rfl := (Opcode.form?_eq_some hform).2.1.mpr rfl
  obtain ⟨index, middle, hindex, h⟩ := bind_eq_ok.mp h
  obtain ⟨amount, last, hamount, h⟩ := bind_eq_ok.mp h
  obtain ⟨rfl, rfl⟩ := pure_eq_ok.mp h
  have hnarrow : ¬(narrowIndex < index.toUInt16 ∨ ¬fitsByte amount.toInt8.toInt16.toInt) :=
    not_or.mpr ⟨UInt16.not_lt.mpr (narrow_byte index), not_not.mpr (fitsByte_toInt16 _)⟩
  refine ⟨[index, amount], ?_, spelled_exactly hform ?_ (fun _ _ ↦ ?_) fun _ ↦ trivial⟩
  · rw [spells_u1 _ _ _ _ hindex, spells_u1 _ _ _ _ hamount]
    rfl
  · exact if_neg hnarrow
  · refine (if_neg hnarrow).trans ?_
    rw [UInt8.toUInt8_toUInt16, Int8.toInt8_toInt16]
    rfl

theorem spelled_branch (hform : opcode.form? = some .branch)
    (h : behind offset opcode .branch input = .ok (reading, rest)) :
    ∃ others, input = others ++ rest ∧ Spelled offset reading (opcode :: others) := by
  have hnear : ¬(opcode = .gotoW ∨ opcode = .jsrW) := fun hfar ↦
    Form.noConfusion ((Opcode.form?_eq_some hform).2.2.mp hfar)
  obtain ⟨distance, middle, hdistance, h⟩ := bind_eq_ok.mp h
  obtain ⟨target, last, htarget, h⟩ := bind_eq_ok.mp h
  obtain ⟨rfl, rfl⟩ := pure_eq_ok.mp h
  obtain ⟨hjump, rfl⟩ := lift_eq_ok.mp htarget
  refine ⟨bytes16 distance, spells_u2 _ _ _ _ hdistance,
    spelled_exactly hform (if_neg hnear) (fun relocation hstays ↦ ?_) fun _ ↦ trivial⟩
  have hmap := hstays target List.mem_cons_self
  refine except_bind_eq_ok.mpr ⟨_, distance_of_stays hmap (jumpTarget_eq_ok hjump), ?_⟩
  refine (if_neg hnear).trans ((if_pos (fitsShort_toInt _)).trans ?_)
  rw [signed16, Int16.ofInt_toInt]
  rfl

theorem spelled_wideBranch (hform : opcode.form? = some .wideBranch)
    (h : behind offset opcode .wideBranch input = .ok (reading, rest)) :
    ∃ others, input = others ++ rest ∧ Spelled offset reading (opcode :: others) := by
  have hwide := (Opcode.form?_eq_some hform).2.2
  obtain ⟨target, middle, htarget, h⟩ := bind_eq_ok.mp h
  obtain ⟨rfl, rfl⟩ := pure_eq_ok.mp h
  obtain ⟨front, rfl, hfront⟩ := farTarget_eq_ok htarget
  refine ⟨front, rfl, spelled_exactly hform (if_pos (hwide.mpr rfl)) (fun relocation hstays ↦ ?_)
    fun _ ↦ trivial⟩
  obtain ⟨distance, hdistance, rfl⟩ := hfront.distance (hstays target List.mem_cons_self)
  exact except_bind_eq_ok.mpr ⟨_, hdistance, if_pos (hwide.mpr rfl)⟩

theorem spelled_interfaceCall (hform : opcode.form? = some .interfaceCall)
    (h : behind offset opcode .interfaceCall input = .ok (reading, rest)) :
    ∃ others, input = others ++ rest ∧ Spelled offset reading (opcode :: others) := by
  obtain ⟨index, afterIndex, hindex, h⟩ := bind_eq_ok.mp h
  obtain ⟨count, afterCount, hcount, h⟩ := bind_eq_ok.mp h
  obtain ⟨reserved, last, hreserved, h⟩ := bind_eq_ok.mp h
  obtain ⟨rfl, rfl⟩ := pure_eq_ok.mp h
  refine ⟨bytes16 index ++ [count] ++ [reserved], ?_, ?_⟩
  · rw [spells_u2 _ _ _ _ hindex, spells_u1 _ _ _ _ hcount, spells_u1 _ _ _ _ hreserved]
    simp only [List.append_assoc]
  · refine spelled_call [0] hform rfl rfl (fun _ ↦ rfl) fun rest ↦ ?_
    change reserved = 0 ↔ [reserved] = [0]
    exact List.singleton_inj.symm

theorem spelled_dynamicCall (hform : opcode.form? = some .dynamicCall)
    (h : behind offset opcode .dynamicCall input = .ok (reading, rest)) :
    ∃ others, input = others ++ rest ∧ Spelled offset reading (opcode :: others) := by
  obtain ⟨index, afterIndex, hindex, h⟩ := bind_eq_ok.mp h
  obtain ⟨reserved, last, hreserved, h⟩ := bind_eq_ok.mp h
  obtain ⟨rfl, rfl⟩ := pure_eq_ok.mp h
  refine ⟨bytes16 index ++ bytes16 reserved, ?_, ?_⟩
  · rw [spells_u2 _ _ _ _ hindex, spells_u2 _ _ _ _ hreserved, List.append_assoc]
  · refine spelled_call [0, 0] hform rfl rfl (fun _ ↦ rfl) fun rest ↦ ?_
    obtain ⟨high, low, hbytes⟩ : ∃ high low, bytes16 reserved = [high, low] := ⟨_, _, rfl⟩
    rw [hbytes]
    change high = 0 ∧ low = 0 ↔ [high, low] = [0, 0]
    rw [List.cons.injEq, List.singleton_inj]

/-- Whatever form the opcode has, the bytes behind it spell the operand. -/
theorem spelled_behind {form : Form} (hform : opcode.form? = some form)
    (h : behind offset opcode form input = .ok (reading, rest)) :
    ∃ others, input = others ++ rest ∧ Spelled offset reading (opcode :: others) := by
  cases form with
  | plain =>
    obtain ⟨rfl, rfl⟩ := pure_eq_ok.mp h
    exact ⟨[], rfl, spelled_exactly hform rfl (fun _ _ ↦ rfl) fun _ ↦ trivial⟩
  | byte =>
    obtain ⟨value, middle, hvalue, h⟩ := bind_eq_ok.mp h
    obtain ⟨rfl, rfl⟩ := pure_eq_ok.mp h
    exact ⟨[value], spells_u1 _ _ _ _ hvalue,
      spelled_exactly hform rfl (fun _ _ ↦ rfl) fun _ ↦ trivial⟩
  | short =>
    obtain ⟨value, middle, hvalue, h⟩ := bind_eq_ok.mp h
    obtain ⟨rfl, rfl⟩ := pure_eq_ok.mp h
    exact ⟨bytes16 value, spells_u2 _ _ _ _ hvalue,
      spelled_exactly hform rfl (fun _ _ ↦ rfl) fun _ ↦ trivial⟩
  | narrowConstant => exact spelled_narrowConstant hform h
  | constant => exact spelled_constant hform h
  | slot => exact spelled_slot hform h
  | increment => exact spelled_increment hform h
  | branch => exact spelled_branch hform h
  | wideBranch => exact spelled_wideBranch hform h
  | tableSwitch => exact spelled_tableSwitch hform h
  | lookupSwitch => exact spelled_lookupSwitch hform h
  | interfaceCall => exact spelled_interfaceCall hform h
  | dynamicCall => exact spelled_dynamicCall hform h
  | arrayType =>
    obtain ⟨type, middle, htype, h⟩ := bind_eq_ok.mp h
    obtain ⟨rfl, rfl⟩ := pure_eq_ok.mp h
    exact ⟨[type], spells_u1 _ _ _ _ htype,
      spelled_exactly hform rfl (fun _ _ ↦ rfl) fun _ ↦ trivial⟩
  | multiArray =>
    obtain ⟨index, afterIndex, hindex, h⟩ := bind_eq_ok.mp h
    obtain ⟨dimensions, last, hdimensions, h⟩ := bind_eq_ok.mp h
    obtain ⟨rfl, rfl⟩ := pure_eq_ok.mp h
    refine ⟨bytes16 index ++ [dimensions], ?_,
      spelled_exactly hform rfl (fun _ _ ↦ rfl) fun _ ↦ trivial⟩
    rw [spells_u2 _ _ _ _ hindex, spells_u1 _ _ _ _ hdimensions, List.append_assoc]
  | wide =>
    obtain rfl := Opcode.eq_wide hform
    obtain ⟨widenedOpcode, middle, hopcode, h⟩ := bind_eq_ok.mp h
    obtain ⟨others, rfl, hspelled⟩ := spelled_widened h
    exact ⟨widenedOpcode :: others, spells_u1 _ _ _ _ hopcode, hspelled⟩

theorem spelled_next (h : next offset input = .ok (reading, rest)) :
    ∃ front, input = front ++ rest ∧ Spelled offset reading front := by
  obtain ⟨opcode, middle, hopcode, h⟩ := bind_eq_ok.mp h
  generalize hform : opcode.form? = form at h
  cases form with
  | none => exact absurd h throw_ne_ok
  | some form =>
    obtain ⟨others, rfl, hspelled⟩ := spelled_behind hform h
    exact ⟨opcode :: others, spells_u1 _ _ _ _ hopcode, hspelled⟩

section Front

variable {front : Bytes} (h : next offset (front ++ rest) = .ok (reading, rest))
include h

theorem spelled_front : Spelled offset reading front := by
  obtain ⟨found, hfound, hspelled⟩ := spelled_next h
  rwa [List.append_cancel_right hfound]

/-- A canonical instruction is written as it was read, as long as its targets stay. -/
theorem encode_of_canonical (hcanonical : Canonical offset (front ++ rest)) :
    (reading.located offset).size offset = reading.width ∧
      ∀ relocation, Stays relocation reading.operand →
        (reading.located offset).encode relocation offset = .ok front := by
  cases spelled_front h with
  | exactly hsize hencode => exact ⟨hsize, hencode⟩
  | loosely _ _ _ _ _ _ hloose => exact absurd hcanonical (hloose rest)

/-- An instruction that is written as it was read is canonical. -/
theorem canonical_of_encode {relocation : Relocation} {bytes more : Bytes}
    (hwidth : front.length = reading.width)
    (hencode : (reading.located offset).encode relocation offset = .ok bytes)
    (hsame : bytes ++ more = front ++ rest) :
    Canonical offset (front ++ rest) ∧ (reading.located offset).size offset = reading.width ∧
      more = rest := by
  cases spelled_front h with
  | exactly hsize _ hcanonical =>
    have hlength : bytes.length = front.length := by
      rw [length_of_encode hencode, hsize, hwidth]
    exact ⟨hcanonical rest, hsize, (List.append_inj hsame hlength).2⟩
  | loosely _ _ hfront hlength hne hwritten =>
    obtain ⟨tail, rfl⟩ := hwritten relocation bytes hencode
    rw [hfront, List.append_assoc, List.append_assoc] at hsame
    exact absurd (List.append_inj hsame hlength.symm).1.symm hne

end Front

end Reading

/-! ### Bodies -/

/-- What is read from a body paves it. -/
theorem paved_of_readFrom {bound offset : Nat} {code : Bytes} {instructions : List Instruction}
    (hbound : code.length ≤ bound) (h : readFrom bound offset code = .ok instructions) :
    Paved offset code instructions := by
  induction bound generalizing offset code instructions with
  | zero =>
    obtain rfl : code = [] := List.eq_nil_of_length_eq_zero (by omega)
    cases h
    exact .nil offset
  | succ bound ih =>
    cases code with
    | nil =>
      cases h
      exact .nil offset
    | cons byte code =>
      simp only [readFrom] at h
      obtain ⟨⟨reading, rest⟩, hreading, h⟩ := except_bind_eq_ok.mp h
      obtain ⟨others, hothers, h⟩ := except_bind_eq_ok.mp h
      cases h
      obtain ⟨-, -, hbefore, hpos⟩ := Reading.sound_next hreading
      rw [List.length_cons] at hbefore hbound
      have hshorter : rest.length ≤ bound := by omega
      obtain ⟨front, hfront, -⟩ := Reading.spelled_next hreading
      have hwidth : front.length = reading.width := by
        have hlength := congrArg List.length hfront
        rw [List.length_cons, List.length_append] at hlength
        omega
      rw [hfront] at hreading ⊢
      exact .cons hreading hwidth (ih hshorter hothers)

section Paved

variable {offset : Nat} {whole code : Bytes} {instructions : List Instruction}

/-- The part of a body that stands behind an instruction of it. -/
theorem drop_width {front rest : Bytes} {width : Nat} (hwhole : whole.drop offset = front ++ rest)
    (hwidth : front.length = width) : whole.drop (offset + width) = rest := by
  rw [← List.drop_drop, hwhole, ← hwidth, List.drop_left]

/-- Code that is written as it was read is canonical throughout. -/
theorem Paved.canonical {relocation : Relocation} {encoded : List Bytes}
    (h : Paved offset code instructions) (hwhole : whole.drop offset = code)
    (hencoded : List.Forall₂ (fun place bytes ↦ place.2.encode relocation place.1 = .ok bytes)
      (layout offset instructions) encoded)
    (hsame : encoded.flatten = code) :
    ∀ origin ∈ origins instructions, Canonical origin (whole.drop origin) := by
  induction h generalizing encoded with
  | nil => exact nofun
  | cons hread hwidth _ ih =>
    obtain _ | ⟨hfirst, hothers⟩ := hencoded
    obtain ⟨hcanonical, hsize, hrest⟩ := Reading.canonical_of_encode hread hwidth hfirst hsame
    rw [hsize] at hothers
    exact List.forall_mem_cons.mpr
      ⟨hwhole ▸ hcanonical, ih (drop_width hwhole hwidth) hothers hrest⟩

/-- Canonical code is laid out where it was read from. -/
theorem Paved.layout (h : Paved offset code instructions) (hwhole : whole.drop offset = code)
    (hcanonical : ∀ origin ∈ origins instructions, Canonical origin (whole.drop origin)) :
    (∀ place ∈ layout offset instructions, place.2.origin = some place.1) ∧
      layoutEnd offset instructions = offset + code.length := by
  induction h with
  | nil => exact ⟨nofun, rfl⟩
  | cons hread hwidth _ ih =>
    obtain ⟨hfirst, hothers⟩ := List.forall_mem_cons.mp hcanonical
    obtain ⟨hsize, -⟩ := Reading.encode_of_canonical hread (hwhole ▸ hfirst)
    obtain ⟨horigins, hend⟩ := ih (drop_width hwhole hwidth) hothers
    rw [Code.layout, layoutEnd_cons, hsize, hend, List.length_append, hwidth, Nat.add_assoc]
    exact ⟨List.forall_mem_cons.mpr ⟨rfl, horigins⟩, rfl⟩

/-- Canonical code is written as it was read, as long as all targets stay. -/
theorem Paved.encode {relocation : Relocation}
    (h : Paved offset code instructions) (hwhole : whole.drop offset = code)
    (hcanonical : ∀ origin ∈ origins instructions, Canonical origin (whole.drop origin))
    (hstays : ∀ instruction ∈ instructions, Stays relocation instruction.operand) :
    ∃ encoded, (Code.layout offset instructions).mapM (fun (offset, instruction) ↦
      instruction.encode relocation offset) = .ok encoded ∧ encoded.flatten = code := by
  induction h with
  | nil => exact ⟨[], rfl, rfl⟩
  | cons hread hwidth _ ih =>
    obtain ⟨hfirst, hothers⟩ := List.forall_mem_cons.mp hcanonical
    obtain ⟨hstaysFirst, hstaysOthers⟩ := List.forall_mem_cons.mp hstays
    obtain ⟨hsize, hencode⟩ := Reading.encode_of_canonical hread (hwhole ▸ hfirst)
    obtain ⟨encoded, hencoded, rfl⟩ := ih (drop_width hwhole hwidth) hothers hstaysOthers
    refine ⟨_ :: encoded, ?_, rfl⟩
    rw [Code.layout, List.mapM_cons, hsize]
    exact except_bind_eq_ok.mpr ⟨_, hencode _ hstaysFirst, except_bind_eq_ok.mpr ⟨_, hencoded, rfl⟩⟩

end Paved

/-- Where every instruction is laid out at its origin, no origin moves. -/
theorem map_ofLayout_origin {instructions : List Instruction} {oldLength origin : Nat}
    (hplaces : ∀ place ∈ layout 0 instructions, place.2.origin = some place.1)
    (hbound : origin < oldLength) (hmem : origin ∈ origins instructions) :
    (Relocation.ofLayout oldLength instructions).map origin = .ok origin := by
  obtain ⟨place, -, hmap⟩ := Relocation.exists_map_ofLayout (Nat.ne_of_lt hbound) hmem
  rcases Relocation.map_ofLayout_eq_ok hmap with ⟨hend, -⟩ | ⟨found, hfound, hplace, horigin⟩
  · omega
  · obtain rfl : origin = found.1 := Option.some.inj (horigin.symm.trans (hplaces found hfound))
    rwa [← hplace] at hmap

/-- A body that is read is paved by its instructions, which stand in order from its first byte on
and only jump to each other. It is written back as it was read, with no instruction moved, exactly
when all of its instructions are canonical. -/
theorem assemble_decode_iff {code : Bytes} {instructions : List Instruction}
    (hlength : code.length ≤ maxCodeLength) (hdecode : decode code = .ok instructions) :
    (instructions ≠ [] → (origins instructions).head? = some 0) ∧
      (origins instructions).Pairwise (· < ·) ∧ Paved 0 code instructions ∧
      (∀ instruction ∈ instructions, ∀ target ∈ instruction.operand.targets,
        target ∈ origins instructions) ∧
      ((∃ relocation, assemble instructions code.length = .ok (code, relocation) ∧
          ∀ origin ∈ origins instructions, relocation.map origin = .ok origin) ↔
        ∀ origin ∈ origins instructions, Canonical origin (code.drop origin)) := by
  obtain ⟨hread, htargets⟩ := decode_eq_ok_iff.mp hdecode
  obtain ⟨-, htiled⟩ := readFrom_eq_ok (Nat.le_refl _) hread
  have hpaved := paved_of_readFrom (Nat.le_refl _) hread
  refine ⟨?_, htiled.pairwise_origins, hpaved, htargets, ?_, fun hcanonical ↦ ?_⟩
  · intro hne
    cases hpaved with
    | nil => exact absurd rfl hne
    | cons => rfl
  · rintro ⟨relocation, hassemble, -⟩
    obtain ⟨-, -, encoded, hsame, hencoded⟩ := assemble_eq_ok hassemble
    exact hpaved.canonical List.drop_zero hencoded hsame.symm
  · obtain ⟨hplaces, hend⟩ := hpaved.layout List.drop_zero hcanonical
    rw [Nat.zero_add] at hend
    have hstay : ∀ origin ∈ origins instructions,
        (Relocation.ofLayout code.length instructions).map origin = .ok origin := by
      intro origin hmem
      have hbound := (htiled.bounds origin hmem).2
      exact map_ofLayout_origin hplaces (by omega) hmem
    obtain ⟨encoded, hencoded, hsame⟩ := hpaved.encode List.drop_zero hcanonical
      fun instruction hmem target htarget ↦ hstay target (htargets instruction hmem target htarget)
    refine ⟨_, ?_, hstay⟩
    have hfits : ¬maxCodeLength < (Relocation.ofLayout code.length instructions).newLength :=
      Nat.not_lt.mpr (Nat.le_trans (Nat.le_of_eq hend) hlength)
    unfold assemble
    rw [if_neg hfits]
    exact except_bind_eq_ok.mpr ⟨encoded, hencoded, by rw [hsame]; rfl⟩

/-- A `wide` that was needed is written back, and one that was not is left out. -/
theorem assemble_decode_wide :
    (∃ relocation, assemble [⟨0x15, .slot 300, some 0⟩, ⟨0xb1, .none, some 4⟩] 5 =
        .ok ([0xc4, 0x15, 1, 44, 0xb1], relocation) ∧
      ∀ origin ∈ [0, 4], relocation.map origin = .ok origin) ∧
    ¬∃ relocation, assemble [⟨0x15, .slot 1, some 0⟩, ⟨0xb1, .none, some 4⟩] 5 =
        .ok ([0xc4, 0x15, 0, 1, 0xb1], relocation) ∧
      ∀ origin ∈ [0, 4], relocation.map origin = .ok origin := by
  constructor
  · have h := @assemble_decode_iff [0xc4, 0x15, 1, 44, 0xb1] _ (by decide) rfl
    exact h.2.2.2.2.mpr (by decide)
  · have h := @assemble_decode_iff [0xc4, 0x15, 0, 1, 0xb1] _ (by decide) rfl
    exact fun hsame ↦ absurd (h.2.2.2.2.mp hsame) (by decide)

end ClassWeaver.Code
