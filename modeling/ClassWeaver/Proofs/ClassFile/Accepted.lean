import ClassWeaver.Proofs.ClassFile.Identity
import ClassWeaver.Proofs.ClassFile.Interning
import ClassWeaver.Proofs.ClassFile.Writable

/-!
What is read is well formed.

Every count and every length of a class that was read was a number in its field, every attribute was
told by its title, and every frame is in the form in which it was written. So a class that was read
can be written and read again (`settled_of_parse`). Like its readers, the proof goes by the depth
to which attributes nest.
-/

set_option autoImplicit false
set_option relaxedAutoImplicit false

namespace ClassWeaver.Parser

variable {ε α β : Type}

/-! ### What parsers give -/

/-- Every value that the parser gives is as `holds` says. -/
def Gives (parser : Parser ε α) (holds : α → Prop) : Prop :=
  ∀ input value rest, parser input = .ok (value, rest) → holds value

variable {holds : α → Prop} {after : β → Prop}

theorem gives_any (parser : Parser ε α) : Gives parser fun _ ↦ True :=
  fun _ _ _ _ ↦ trivial

theorem gives_pure {value : α} (h : holds value) : Gives (pure value : Parser ε α) holds := by
  intro input answer rest hread
  obtain ⟨rfl, -⟩ := pure_eq_ok.mp hread
  exact h

theorem gives_throw (fault : ε) : Gives (throw fault : Parser ε α) holds :=
  fun _ _ _ hread ↦ absurd hread throw_ne_ok

theorem Gives.bind {parser : Parser ε α} {next : α → Parser ε β} (h : Gives parser holds)
    (hnext : ∀ value, holds value → Gives (next value) after) : Gives (parser >>= next) after := by
  intro input result rest hread
  obtain ⟨value, middle, hvalue, hread⟩ := bind_eq_ok.mp hread
  exact hnext value (h _ _ _ hvalue) _ _ _ hread

/-- What a parser gives goes into a result. -/
theorem Gives.map {parser : Parser ε α} (h : Gives parser holds) {compute : α → β}
    (hresult : ∀ value, holds value → after (compute value)) :
    Gives (parser >>= fun value ↦ pure (compute value)) after :=
  h.bind fun value hvalue ↦ gives_pure (hresult value hvalue)

theorem Gives.times {item : Parser ε α} (h : Gives item holds) (count : Nat) :
    Gives (times item count) fun values ↦
      values.length = count ∧ ∀ value ∈ values, holds value := by
  induction count with
  | zero => exact gives_pure ⟨rfl, nofun⟩
  | succ count ih =>
    refine h.bind fun first hfirst ↦ ih.map fun others hothers ↦ ?_
    exact ⟨congrArg (· + 1) hothers.1, List.forall_mem_cons.mpr ⟨hfirst, hothers.2⟩⟩

end ClassWeaver.Parser

namespace ClassWeaver.ClassFile

open ClassWeaver.Parser Text

/-- A text whose length fits into two bytes, or any other entry. -/
def Constant.Short (entry : Constant) : Prop :=
  ∀ text, entry = .utf8 text → (ModifiedUtf8.encode text).length ≤ maxCount

theorem Constant.eq_of_mem_slots {entry other : Constant} (h : some other ∈ entry.slots) :
    entry = other := by
  rw [Constant.slots] at h
  split at h
  · simpa [eq_comm] using h
  · simpa [eq_comm] using h

/-- A well-formed frame in the form in which it is written. -/
structure StackMapFrame.Settled (frame : StackMapFrame) : Prop where
  wellFormed : frame.WellFormed
  widened : frame.widened = frame

/-- A well-formed attribute with every frame in the form in which it is written. -/
structure Attribute.Settled (pool : ConstantPool) (attr : Attribute) : Prop where
  wellFormed : attr.WellFormed pool
  widened : attr.widened = attr

/-- Attributes that a class can have. -/
structure AttributesSettled (pool : ConstantPool) (attributes : List Attribute) : Prop where
  count : attributes.length ≤ maxCount
  each : ∀ attr ∈ attributes, attr.Settled pool

namespace Reader

theorem gives_counted {α : Type} {item : Reader α} {holds : α → Prop} (h : Gives item holds) :
    Gives (counted item) fun values ↦
      values.length ≤ maxCount ∧ ∀ value ∈ values, holds value := by
  refine (gives_any u2).bind fun count _ ↦ ?_
  intro input values rest hread
  obtain ⟨hlength, hvalues⟩ := h.times count.toNat _ _ _ hread
  exact ⟨hlength ▸ Nat.le_of_lt_succ count.toNat_lt, hvalues⟩

/-- As many items as a count can tell. -/
theorem gives_few {α : Type} (item : Reader α) :
    Gives (counted item) fun values ↦ values.length ≤ maxCount := by
  intro input values rest hread
  exact (gives_counted (gives_any item) _ _ _ hread).1

/-! ### The constant pool -/

/-- A text is no longer than the bytes that it was read from, whose number was written in two
bytes. -/
theorem gives_constant : Gives constant Constant.Short := by
  intro input entry rest hread text htext
  obtain ⟨raw, texts, -, hspelled⟩ := constant_eq_ok hread
  subst htext
  cases hspelled with
  | @text length encoded _ hlength hdecode =>
    have hle := ModifiedUtf8.length_encode_le hdecode
    have hlt := length.toNat_lt
    rw [maxCount]
    omega
  | other htag hbytes _ _ =>
    exact absurd (List.cons.inj hbytes).1.symm htag

/-- Slots that short entries fill. -/
def Tiled (slots : List (Option Constant)) : Prop :=
  ∃ entries : List Constant, slots = entries.flatMap Constant.slots ∧
    ∀ entry ∈ entries, entry.Short

theorem tiled_nil : Tiled [] :=
  ⟨[], rfl, nofun⟩

theorem Tiled.cons {entry : Constant} {slots : List (Option Constant)} (hentry : entry.Short)
    (h : Tiled slots) : Tiled (entry.slots ++ slots) := by
  obtain ⟨entries, rfl, hentries⟩ := h
  exact ⟨entry :: entries, rfl, List.forall_mem_cons.mpr ⟨hentry, hentries⟩⟩

theorem gives_constants (declared : UInt16) (room : Nat) :
    Gives (constants declared room) Tiled := by
  induction room using constants.induct with
  | case1 => exact gives_pure tiled_nil
  | case2 =>
    refine gives_constant.bind fun entry hentry ↦ ?_
    cases entry.isWide with
    | true => exact fun _ _ _ hread ↦ absurd hread throw_bind_ne_ok
    | false =>
      refine gives_pure ?_
      have hslots := tiled_nil.cons hentry
      rwa [List.append_nil] at hslots
  | case3 room ihWide ihNarrow =>
    refine gives_constant.bind fun entry hentry ↦ ?_
    cases entry.isWide with
    | true => exact ihWide.map fun others ↦ Tiled.cons hentry
    | false => exact ihNarrow.map fun others ↦ Tiled.cons hentry

theorem gives_constantPool : Gives constantPool ConstantPool.WellFormed := by
  intro input pool rest hread
  have hsize := (ConstantPool.indexed_of_read hread).size_le
  obtain ⟨declared, middle, -, hread⟩ := bind_eq_ok.mp hread
  obtain ⟨slots, last, hslots, hread⟩ := bind_eq_ok.mp hread
  obtain ⟨rfl, -⟩ := pure_eq_ok.mp hread
  obtain ⟨entries, rfl, hentries⟩ := gives_constants declared _ _ _ _ hslots
  refine ⟨⟨entries, rfl⟩, hsize, fun text hmem ↦ ?_⟩
  have hnone : some (Constant.utf8 text) ≠ none := Option.some_ne_none _
  obtain ⟨entry, hentry, htext⟩ := List.mem_flatMap.mp (List.mem_of_ne_of_mem hnone hmem)
  exact hentries entry hentry text (Constant.eq_of_mem_slots htext)

/-! ### Stack maps -/

theorem gives_stackMapFrame : Gives stackMapFrame StackMapFrame.Settled := by
  refine (gives_any u1).bind fun type _ ↦ ?_
  by_cases hsame : type ≤ 63
  · have hle := UInt8.le_iff_toNat_le.mp hsame
    rw [if_pos hsame]
    exact gives_pure ⟨trivial, if_pos (toUInt16_le_compactDelta hle)⟩
  rw [if_neg hsame]
  by_cases hlocals : type ≤ 127
  · have hgt : 63 < type.toNat := UInt8.lt_iff_toNat_lt.mp (UInt8.not_le.mp hsame)
    have hle : type.toNat ≤ 127 := UInt8.le_iff_toNat_le.mp hlocals
    have hge : (64 : UInt8) ≤ type := UInt8.le_iff_toNat_le.mpr hgt
    have hdelta : (type - 64).toNat ≤ 63 := by
      rw [UInt8.toNat_sub_of_le _ _ hge]
      exact Nat.sub_le_of_le_add hle
    rw [if_pos hlocals]
    exact (gives_any verificationType).map fun stack _ ↦
      ⟨trivial, if_pos (toUInt16_le_compactDelta hdelta)⟩
  rw [if_neg hlocals]
  by_cases hreserved : type ≤ 246
  · rw [if_pos hreserved]
    exact gives_throw _
  rw [if_neg hreserved]
  by_cases hextended : type = 247
  · rw [if_pos hextended]
    exact (gives_any u2).bind fun delta _ ↦
      (gives_any verificationType).map fun stack _ ↦ ⟨trivial, rfl⟩
  rw [if_neg hextended]
  have hgt : 246 < type.toNat := UInt8.lt_iff_toNat_lt.mp (UInt8.not_le.mp hreserved)
  by_cases hchop : type ≤ 250
  · rw [if_pos hchop]
    refine (gives_any u2).map fun delta _ ↦ ⟨?_, rfl⟩
    have hne : type.toNat ≠ 247 := fun h ↦ hextended (UInt8.toNat_inj.mp h)
    have hle : type.toNat ≤ 250 := UInt8.le_iff_toNat_le.mp hchop
    have hcount : (251 - type).toNat = 251 - type.toNat :=
      UInt8.toNat_sub_of_le _ _ (UInt8.le_iff_toNat_le.mpr (Nat.le_succ_of_le hle))
    rw [StackMapFrame.WellFormed, hcount]
    omega
  rw [if_neg hchop]
  by_cases hsameExtended : type = 251
  · rw [if_pos hsameExtended]
    exact (gives_any u2).map fun delta _ ↦ ⟨trivial, rfl⟩
  rw [if_neg hsameExtended]
  have hmore : 250 < type.toNat := UInt8.lt_iff_toNat_lt.mp (UInt8.not_le.mp hchop)
  by_cases happend : type ≤ 254
  · rw [if_pos happend]
    refine (gives_any u2).bind fun delta _ ↦
      ((gives_any verificationType).times _).map fun locals hlocals ↦ ⟨?_, rfl⟩
    have hne : type.toNat ≠ 251 := fun h ↦ hsameExtended (UInt8.toNat_inj.mp h)
    have hle : type.toNat ≤ 254 := UInt8.le_iff_toNat_le.mp happend
    rw [StackMapFrame.WellFormed, hlocals.1]
    omega
  · rw [if_neg happend]
    exact (gives_any u2).bind fun delta _ ↦ (gives_few verificationType).bind fun locals hlocals ↦
      (gives_few verificationType).map fun stack hstack ↦ ⟨⟨hlocals, hstack⟩, rfl⟩

/-! ### Attributes -/

section Nested

variable {nested : Reader (List Attribute)} {pool : ConstantPool}

theorem gives_methodBody (hnested : Gives nested (AttributesSettled pool)) :
    Gives (methodBody nested) fun body ↦
      AttributeContent.WellFormed pool (.code body) ∧ body.widened = body := by
  refine (gives_any u2).bind fun maxStack _ ↦ (gives_any u2).bind fun maxLocals _ ↦
    (gives_any u4).bind fun length _ ↦ (gives_any (take _)).bind fun code _ ↦
    (gives_few exceptionHandler).bind fun handlers hhandlers ↦
    hnested.map fun attributes hattributes ↦ ⟨?_, ?_⟩
  · exact .code hhandlers hattributes.count fun attr hmem ↦ (hattributes.each attr hmem).wellFormed
  · rw [MethodBody.widened, attributesWidened_eq_map]
    congr
    exact (List.map_congr_left fun attr hmem ↦ (hattributes.each attr hmem).widened).trans
      (List.map_id _)

theorem gives_attributeContent (hnested : Gives nested (AttributesSettled pool)) (title : String) :
    Gives (attributeContent nested title) fun content ↦
      content.WellFormed pool ∧ content.widened = content ∧ content.title = title := by
  unfold attributeContent
  split
  · exact (gives_any u2).map fun value _ ↦ ⟨.constantValue value, rfl, rfl⟩
  · exact (gives_methodBody hnested).map fun body hbody ↦
      ⟨hbody.1, congrArg AttributeContent.code hbody.2, rfl⟩
  · refine (gives_counted gives_stackMapFrame).map fun frames hframes ↦ ⟨?_, ?_, rfl⟩
    · exact .stackMap hframes.1 fun frame hmem ↦ (hframes.2 frame hmem).wellFormed
    · refine congrArg AttributeContent.stackMap ?_
      exact (List.map_congr_left fun frame hmem ↦ (hframes.2 frame hmem).widened).trans
        (List.map_id _)
  · exact (gives_few u2).map fun classes hclasses ↦ ⟨.exceptions hclasses, rfl, rfl⟩
  · exact (gives_any u2).map fun value _ ↦ ⟨.signature value, rfl, rfl⟩
  · exact (gives_any u2).map fun value _ ↦ ⟨.sourceFile value, rfl, rfl⟩
  · exact (gives_few lineNumber).map fun rows hrows ↦ ⟨.lineNumbers hrows, rfl, rfl⟩
  · exact (gives_few localVariable).map fun rows hrows ↦ ⟨.localVariables hrows, rfl, rfl⟩
  · exact (gives_few localVariable).map fun rows hrows ↦ ⟨.localVariableTypes hrows, rfl, rfl⟩
  · exact gives_pure ⟨.deprecated, rfl, rfl⟩
  · exact gives_pure ⟨.synthetic, rfl, rfl⟩
  · intro input content rest hread
    cases hread
    refine ⟨.opaqueBytes ?_, rfl, rfl⟩
    simp_all [meaningfulTitles]

/-- The length of a content was written in four bytes. -/
theorem gives_oneAttribute (hspells : Spells nested (countedBytes Attribute.bytes))
    (hnested : Gives nested (AttributesSettled pool)) :
    Gives (oneAttribute pool nested) (Attribute.Settled pool) := by
  intro input attr rest hread
  obtain ⟨name, afterName, -, hread⟩ := bind_eq_ok.mp hread
  obtain ⟨length, afterLength, -, hread⟩ := bind_eq_ok.mp hread
  obtain ⟨data, afterData, hdata, hread⟩ := bind_eq_ok.mp hread
  obtain ⟨title, last, hname, hread⟩ := bind_eq_ok.mp hread
  obtain ⟨⟨content, unused⟩, final, hdataRead, hread⟩ := bind_eq_ok.mp hread
  obtain ⟨htitle, rfl⟩ := lift_eq_ok.mp hname
  obtain ⟨hcontent, rfl⟩ := lift_eq_ok.mp hdataRead
  dsimp only at hread
  split at hread
  · rename_i hused
    obtain ⟨rfl, -⟩ := pure_eq_ok.mp hread
    obtain ⟨-, hcount⟩ := take_eq_ok hdata
    obtain ⟨hwellFormed, hwidened, rfl⟩ := gives_attributeContent hnested title _ _ _ hcontent
    have hspelled := spells_attributeContent hspells _ _ _ _ hcontent
    rw [List.isEmpty_iff.mp hused, List.append_nil] at hspelled
    refine ⟨.intro htitle ?_ hwellFormed, ?_⟩
    · rw [← hspelled, hcount]
      exact length.toNat_lt
    · rw [Attribute.widened, hwidened]
  · exact absurd hread throw_ne_ok

end Nested

theorem gives_attributes (pool : ConstantPool) (depth : Nat) :
    Gives (attributes pool depth) (AttributesSettled pool) := by
  induction depth with
  | zero => exact gives_throw _
  | succ depth ih =>
    intro input attributes rest hread
    obtain ⟨hcount, heach⟩ :=
      gives_counted (gives_oneAttribute (spells_attributes pool depth) ih) _ _ _ hread
    exact ⟨hcount, heach⟩

/-! ### Classes -/

theorem gives_member (pool : ConstantPool) (depth : Nat) :
    Gives (member pool depth) fun value ↦ AttributesSettled pool value.attributes :=
  (gives_any u2).bind fun _ _ ↦ (gives_any u2).bind fun _ _ ↦ (gives_any u2).bind fun _ _ ↦
    (gives_attributes pool depth).map fun _ hattributes ↦ hattributes

end Reader

/-- A class that can be written and read again as it is. -/
structure Settled (file : ClassFile) : Prop where
  pool : file.pool.WellFormed
  interfaces : file.interfaces.length ≤ maxCount
  fields : file.fields.length ≤ maxCount
  fieldAttributes : ∀ field ∈ file.fields, AttributesSettled file.pool field.attributes
  methods : file.methods.length ≤ maxCount
  methodAttributes : ∀ method ∈ file.methods, AttributesSettled file.pool method.attributes
  attributes : AttributesSettled file.pool file.attributes

theorem Reader.gives_classFile (depth : Nat) : Gives (classFile depth) Settled := by
  refine (gives_any u4).bind fun found _ ↦ ?_
  by_cases hfound : found ≠ magic
  · rw [if_pos hfound]
    exact fun _ _ _ hread ↦ absurd hread throw_bind_ne_ok
  rw [if_neg hfound]
  exact (gives_any u2).bind fun minor _ ↦ (gives_any u2).bind fun major _ ↦
    gives_constantPool.bind fun pool hpool ↦ (gives_any u2).bind fun access _ ↦
    (gives_any u2).bind fun thisClass _ ↦ (gives_any u2).bind fun superClass _ ↦
    (gives_few u2).bind fun interfaces hinterfaces ↦
    (gives_counted (gives_member pool depth)).bind fun fields hfields ↦
    (gives_counted (gives_member pool depth)).bind fun methods hmethods ↦
    (gives_attributes pool depth).map fun attributes hattributes ↦
      ⟨hpool, hinterfaces, hfields.1, hfields.2, hmethods.1, hmethods.2, hattributes⟩

/-- A class that was read can be written and read again as it is. -/
theorem settled_of_parse {input : Bytes} {file : ClassFile} (h : parse input = .ok file) :
    file.Settled := by
  obtain ⟨⟨read, rest⟩, hread, h⟩ := except_bind_eq_ok.mp h
  dsimp only at h
  split at h
  · cases h
    exact Reader.gives_classFile _ _ _ _ hread
  · cases h

end ClassWeaver.ClassFile
