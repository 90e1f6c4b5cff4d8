import ClassWeaver.ClassFile.Parser
import ClassWeaver.Proofs.Attempt
import ClassWeaver.Proofs.ClassFile.Identity
import ClassWeaver.Proofs.ClassFile.Writable
import ClassWeaver.Proofs.Text.ModifiedUtf8

/-!
What is written of a well-formed class is read as that class.

Each reader reads what its printer writes, whatever follows (`Parser.Reads`), and the readers of
composite items are put together from those of their parts. Attributes nest, so that for them this
is an induction on the depth that the reader allows; the bytes of an attribute outnumber those of
the attributes inside it, and so their number is depth enough. `parse_bytes` is the outcome for
classes.
-/

set_option autoImplicit false
set_option relaxedAutoImplicit false

namespace ClassWeaver.ClassFile

open ClassWeaver.Parser Text

namespace Reader

/-! ### Numbers and lists -/

theorem reads_u8 (word : UInt64) : Reads u8 (bytes64 word) word :=
  fun rest ↦ u8_bytes64 .unexpectedEnd word rest

/-- Items that are read as they were written, or in another form, one after the other. -/
theorem reads_times_flatMap {α : Type} {item : Reader α} {print : α → Bytes} {form : α → α}
    {items : List α} {count : Nat} (hitems : ∀ x ∈ items, Reads item (print x) (form x))
    (hcount : items.length = count) :
    Reads (Parser.times item count) (items.flatMap print) (items.map form) := by
  rw [List.flatMap_def]
  refine reads_times ?_ (by rw [List.length_map, hcount])
  rw [List.forall₂_map_left_iff, List.forall₂_map_right_iff]
  exact List.forall₂_same.mpr hitems

theorem reads_counted {α : Type} {item : Reader α} {print : α → Bytes} {form : α → α}
    {items : List α} (hitems : ∀ x ∈ items, Reads item (print x) (form x))
    (hcount : items.length ≤ maxCount) :
    Reads (counted item) (countedBytes print items) (items.map form) := by
  refine (reads_u2 _ _).bind (reads_times_flatMap hitems ?_)
  exact (UInt16.toNat_ofNat_of_lt' (Nat.lt_succ_of_le hcount)).symm

/-- A list of items that all keep their form. -/
theorem reads_counted_same {α : Type} {item : Reader α} {print : α → Bytes} {items : List α}
    (hitem : ∀ x, Reads item (print x) x) (hcount : items.length ≤ maxCount) :
    Reads (counted item) (countedBytes print items) items := by
  have h : Reads (counted item) (countedBytes print items) (items.map id) :=
    reads_counted (fun x _ ↦ hitem x) hcount
  rwa [List.map_id] at h

/-! ### The constant pool -/

theorem reads_utf8 {text : String} (htext : (ModifiedUtf8.encode text).length ≤ maxCount) :
    Reads constant (Constant.utf8 text).bytes (.utf8 text) := by
  have hlength : (UInt16.ofNat (ModifiedUtf8.encode text).length).toNat =
      (ModifiedUtf8.encode text).length :=
    UInt16.toNat_ofNat_of_lt' (Nat.lt_succ_of_le htext)
  refine (reads_u1 _ 1).bind ((reads_u2 _ _).bind ((reads_take _ hlength.symm).finish ?_))
  rw [ModifiedUtf8.decode_of_encode]
  exact reads_pure _

theorem reads_reference (wrap : UInt16 → Constant) (index : UInt16) :
    Reads (u2 >>= fun index ↦ pure (wrap index)) (bytes16 index) (wrap index) :=
  (reads_u2 _ _).map wrap

theorem reads_references (wrap : UInt16 → UInt16 → Constant) (first second : UInt16) :
    Reads (u2 >>= fun first ↦ u2 >>= fun second ↦ pure (wrap first second))
      (bytes16 first ++ bytes16 second) (wrap first second) :=
  (reads_u2 _ _).bind ((reads_u2 _ _).map (wrap first))

/-- An entry is read from its bytes; the length of a text has to fit into two of them. -/
theorem reads_constant {entry : Constant}
    (htext : ∀ text, entry = .utf8 text → (ModifiedUtf8.encode text).length ≤ maxCount) :
    Reads constant entry.bytes entry := by
  cases entry with
  | utf8 text => exact reads_utf8 (htext text rfl)
  | integer value =>
    have hword := (reads_u4 Malformation.unexpectedEnd value.toUInt32).map
      fun word ↦ Constant.integer word.toInt32
    exact (reads_u1 _ 3).bind hword
  | float bits =>
    have hword := (reads_u4 Malformation.unexpectedEnd bits).map Constant.float
    exact (reads_u1 _ 4).bind hword
  | long value =>
    have hword := (reads_u8 value.toUInt64).map fun word ↦ Constant.long word.toInt64
    exact (reads_u1 _ 5).bind hword
  | double bits =>
    have hword := (reads_u8 bits).map Constant.double
    exact (reads_u1 _ 6).bind hword
  | classRef name => exact (reads_u1 _ 7).bind (reads_reference .classRef name)
  | string text => exact (reads_u1 _ 8).bind (reads_reference .string text)
  | fieldRef owner member => exact (reads_u1 _ 9).bind (reads_references .fieldRef owner member)
  | methodRef owner member => exact (reads_u1 _ 10).bind (reads_references .methodRef owner member)
  | interfaceMethodRef owner member =>
    exact (reads_u1 _ 11).bind (reads_references .interfaceMethodRef owner member)
  | nameAndType name descriptor =>
    exact (reads_u1 _ 12).bind (reads_references .nameAndType name descriptor)
  | methodHandle kind reference =>
    exact (reads_u1 _ 15).bind
      ((reads_u1 _ kind).bind (reads_reference (.methodHandle kind) reference))
  | methodType descriptor => exact (reads_u1 _ 16).bind (reads_reference .methodType descriptor)
  | dynamic bootstrap member =>
    exact (reads_u1 _ 17).bind (reads_references .dynamic bootstrap member)
  | invokeDynamic bootstrap member =>
    exact (reads_u1 _ 18).bind (reads_references .invokeDynamic bootstrap member)
  | moduleRef name => exact (reads_u1 _ 19).bind (reads_reference .moduleRef name)
  | packageRef name => exact (reads_u1 _ 20).bind (reads_reference .packageRef name)

/-- Entries fill as many slots as they take up. -/
theorem reads_constants (declared : UInt16) {entries : List Constant}
    (hentries : ∀ entry ∈ entries, Reads constant entry.bytes entry) :
    Reads (constants declared (entries.flatMap Constant.slots).length)
      (entries.flatMap Constant.bytes) (entries.flatMap Constant.slots) := by
  induction entries with
  | nil => exact reads_pure []
  | cons entry rest ih =>
    obtain ⟨hentry, hrest⟩ := List.forall_mem_cons.mp hentries
    have hothers := ih hrest
    rw [List.flatMap_cons, List.flatMap_cons, List.length_append, length_slots]
    cases hwide : entry.isWide with
    | true =>
      rw [if_pos rfl, Nat.add_comm]
      refine hentry.bind ?_
      rw [hwide]
      exact hothers.map _
    | false =>
      rw [if_neg Bool.false_ne_true]
      cases hroom : (rest.flatMap Constant.slots).length with
      | zero =>
        -- The last slot: what follows is the empty list, which takes no bytes.
        rw [hroom] at hothers
        have hslots := List.length_eq_zero_iff.mp hroom
        have hbytes : rest.flatMap Constant.bytes = [] := by
          cases rest with
          | nil => rfl
          | cons next others =>
            rw [List.flatMap_cons, List.length_append, length_slots] at hroom
            split at hroom <;> omega
        rw [hslots, hbytes, List.append_nil, List.append_nil]
        refine hentry.finish ?_
        rw [hwide]
        exact reads_pure _
      | succ room =>
        rw [hroom] at hothers
        rw [Nat.add_comm]
        refine hentry.bind ?_
        rw [hwide]
        exact hothers.map _

theorem reads_constantPool {pool : ConstantPool} (h : pool.WellFormed) :
    Reads constantPool pool.bytes pool := by
  obtain ⟨entries, hslots⟩ := h.tiled
  have hsize : pool.slots.size = (entries.flatMap Constant.slots).length + 1 := by
    rw [← Array.length_toList, hslots, List.length_cons]
  have hcount : pool.count.toNat = (entries.flatMap Constant.slots).length + 1 := by
    rw [ConstantPool.count, hsize]
    exact UInt16.toNat_ofNat_of_lt' (Nat.lt_succ_of_le (hsize ▸ h.size_le))
  have hpresent : (pool.slots.toList.filterMap id) = entries := by
    rw [hslots]
    have hentry (entry : Constant) : entry.slots.filterMap id = [entry] := by
      rw [Constant.slots]
      split <;> rfl
    rw [List.filterMap_cons_none rfl, List.filterMap_flatMap]
    simp only [hentry, List.flatMap_singleton']
  have hentries : ∀ entry ∈ entries, Reads constant entry.bytes entry := by
    refine fun entry hmem ↦ reads_constant ?_
    rintro text rfl
    refine h.texts text ?_
    rw [hslots]
    exact List.mem_cons_of_mem _ (List.mem_flatMap.mpr ⟨_, hmem, List.mem_singleton_self _⟩)
  have hread := reads_constants pool.count hentries
  rw [ConstantPool.bytes, hpresent]
  refine (reads_u2 _ _).bind ?_
  rw [hcount, Nat.add_sub_cancel]
  have hpool : pool = ⟨(none :: entries.flatMap Constant.slots).toArray⟩ := by
    rw [← hslots]
  conv => rhs; rw [hpool]
  exact hread.map _

/-! ### Stack maps -/

theorem reads_verificationType (type : VerificationType) :
    Reads verificationType type.bytes type := by
  cases type with
  | object classIndex =>
    have hindex := (reads_u2 Malformation.unexpectedEnd classIndex).map VerificationType.object
    exact (reads_u1 _ 7).bind hindex
  | uninitialized offset =>
    have hoffset := (reads_u2 Malformation.unexpectedEnd offset).map VerificationType.uninitialized
    exact (reads_u1 _ 8).bind hoffset
  -- The other types are nothing but their tag.
  | _ => exact fun rest ↦ rfl

theorem reads_sameExtended (delta : UInt16) :
    Reads stackMapFrame (251 :: bytes16 delta) (.sameExtended delta) := by
  have hdelta := (reads_u2 Malformation.unexpectedEnd delta).map StackMapFrame.sameExtended
  exact (reads_u1 _ 251).bind hdelta

theorem reads_sameLocals1Extended (delta : UInt16) (stack : VerificationType) :
    Reads stackMapFrame (247 :: bytes16 delta ++ stack.bytes)
      (.sameLocals1Extended delta stack) := by
  have hstack := (reads_verificationType stack).map (StackMapFrame.sameLocals1Extended delta)
  exact (reads_u1 _ 247).bind ((reads_u2 _ delta).bind hstack)

/-- A frame that keeps all locals, with nothing on the stack. -/
theorem reads_same (delta : UInt16) :
    Reads stackMapFrame (StackMapFrame.same delta).bytes (StackMapFrame.same delta).widened := by
  rw [StackMapFrame.bytes, StackMapFrame.widened]
  by_cases hcompact : delta ≤ compactDelta
  · rw [if_pos hcompact, if_pos hcompact]
    have hle : delta.toNat ≤ 63 := UInt16.le_iff_toNat_le.mp hcompact
    have hvalue : delta.toUInt8.toNat = delta.toNat := by
      rw [UInt16.toNat_toUInt8]
      omega
    have htype : delta.toUInt8 ≤ 63 := UInt8.le_iff_toNat_le.mpr (hvalue ▸ hle)
    have hdelta : delta.toUInt8.toUInt16 = delta :=
      UInt16.toNat_inj.mp (by rw [UInt8.toNat_toUInt16, hvalue])
    refine (reads_u1 _ delta.toUInt8).finish ?_
    rw [if_pos htype, hdelta]
    exact reads_pure _
  · rw [if_neg hcompact, if_neg hcompact]
    exact reads_sameExtended delta

/-- A frame that keeps all locals, with one value on the stack. -/
theorem reads_sameLocals1 (delta : UInt16) (stack : VerificationType) :
    Reads stackMapFrame (StackMapFrame.sameLocals1 delta stack).bytes
      (StackMapFrame.sameLocals1 delta stack).widened := by
  rw [StackMapFrame.bytes, StackMapFrame.widened]
  by_cases hcompact : delta ≤ compactDelta
  · rw [if_pos hcompact, if_pos hcompact]
    have hle : delta.toNat ≤ 63 := UInt16.le_iff_toNat_le.mp hcompact
    have hvalue : (64 + delta.toUInt8).toNat = 64 + delta.toNat := by
      rw [UInt8.toNat_add, UInt16.toNat_toUInt8]
      change (64 + _) % 256 = _
      omega
    have hlarge : ¬ 64 + delta.toUInt8 ≤ 63 := by
      rw [UInt8.le_iff_toNat_le, hvalue]
      change ¬ _ ≤ 63
      omega
    have htype : 64 + delta.toUInt8 ≤ 127 := by
      rw [UInt8.le_iff_toNat_le, hvalue]
      change _ ≤ 127
      omega
    have hdelta : (64 + delta.toUInt8 - 64).toUInt16 = delta := by
      rw [UInt8.add_comm, UInt8.add_sub_cancel]
      apply UInt16.toNat_inj.mp
      rw [UInt8.toNat_toUInt16, UInt16.toNat_toUInt8]
      omega
    refine (reads_u1 _ (64 + delta.toUInt8)).bind ?_
    rw [if_neg hlarge, if_pos htype, hdelta]
    exact (reads_verificationType stack).map _
  · rw [if_neg hcompact, if_neg hcompact]
    exact reads_sameLocals1Extended delta stack

theorem reads_chop {delta : UInt16} {count : UInt8}
    (h : 1 ≤ count.toNat ∧ count.toNat ≤ 3) :
    Reads stackMapFrame (StackMapFrame.chop delta count).bytes (.chop delta count) := by
  obtain ⟨hone, hthree⟩ := h
  have hcount : count = 1 ∨ count = 2 ∨ count = 3 := by
    simp only [← UInt8.toNat_inj]
    change count.toNat = 1 ∨ count.toNat = 2 ∨ count.toNat = 3
    omega
  rcases hcount with rfl | rfl | rfl
  all_goals
    refine (reads_u1 _ _).bind ?_
    exact (reads_u2 Malformation.unexpectedEnd delta).map fun delta ↦ StackMapFrame.chop delta _

theorem reads_append {delta : UInt16} {locals : List VerificationType}
    (h : 1 ≤ locals.length ∧ locals.length ≤ 3) :
    Reads stackMapFrame (StackMapFrame.append delta locals).bytes (.append delta locals) := by
  have hlocals {count : Nat} (hcount : locals.length = count) :
      Reads (Parser.times verificationType count) (locals.flatMap VerificationType.bytes)
        locals := by
    have hread : Reads (Parser.times verificationType count)
        (locals.flatMap VerificationType.bytes) (locals.map id) :=
      reads_times_flatMap (fun type _ ↦ reads_verificationType type) hcount
    rwa [List.map_id] at hread
  have hcount : locals.length = 1 ∨ locals.length = 2 ∨ locals.length = 3 := by omega
  rw [StackMapFrame.bytes]
  rcases hcount with hcount | hcount | hcount
  all_goals
    rw [hcount]
    exact (reads_u1 _ _).bind ((reads_u2 _ delta).bind ((hlocals hcount).map _))

theorem reads_full {delta : UInt16} {locals stack : List VerificationType}
    (hlocals : locals.length ≤ maxCount) (hstack : stack.length ≤ maxCount) :
    Reads stackMapFrame (StackMapFrame.full delta locals stack).bytes
      (.full delta locals stack) := by
  have hstackRead := (reads_counted_same reads_verificationType hstack).map
    (StackMapFrame.full delta locals)
  rw [StackMapFrame.bytes, List.cons_append, List.cons_append, List.append_assoc]
  exact (reads_u1 _ 255).bind ((reads_u2 _ delta).bind
    ((reads_counted_same reads_verificationType hlocals).bind hstackRead))

/-- A frame is read in the form in which it is written. -/
theorem reads_stackMapFrame {frame : StackMapFrame} (h : frame.WellFormed) :
    Reads stackMapFrame frame.bytes frame.widened := by
  cases frame with
  | same delta => exact reads_same delta
  | sameLocals1 delta stack => exact reads_sameLocals1 delta stack
  | sameLocals1Extended delta stack => exact reads_sameLocals1Extended delta stack
  | chop delta count => exact reads_chop h
  | sameExtended delta => exact reads_sameExtended delta
  | append delta locals => exact reads_append h
  | full delta locals stack => exact reads_full h.1 h.2

/-! ### Rows -/

theorem reads_exceptionHandler (row : ExceptionHandler) :
    Reads exceptionHandler row.bytes row := by
  simp only [ExceptionHandler.bytes, List.append_assoc]
  exact (reads_u2 _ _).bind ((reads_u2 _ _).bind ((reads_u2 _ _).bind ((reads_u2 _ _).map _)))

theorem reads_lineNumber (row : LineNumber) : Reads lineNumber row.bytes row :=
  (reads_u2 _ _).bind ((reads_u2 _ _).map _)

theorem reads_localVariable (row : LocalVariable) : Reads localVariable row.bytes row := by
  simp only [LocalVariable.bytes, List.append_assoc]
  exact (reads_u2 _ _).bind ((reads_u2 _ _).bind ((reads_u2 _ _).bind
    ((reads_u2 _ _).bind ((reads_u2 _ _).map _))))

/-! ### Attributes -/

/-- One of several items takes no more bytes than all of them. -/
theorem length_le_flatMap {α : Type} (print : α → Bytes) {items : List α} {x : α} (h : x ∈ items) :
    (print x).length ≤ (items.flatMap print).length := by
  rw [List.flatMap_def]
  exact (List.sublist_flatten_of_mem (List.mem_map_of_mem h)).length_le

theorem length_bytes_methodBody (body : MethodBody) :
    body.bytes.length = 12 + body.code.length +
      (body.handlers.flatMap ExceptionHandler.bytes).length +
        (body.attributes.flatMap Attribute.bytes).length := by
  obtain ⟨maxStack, maxLocals, code, handlers, attributes⟩ := body
  simp only [MethodBody.bytes, countedBytes, List.length_append, length_bytes16, length_bytes32,
    attributesBytes_eq_flatMap]
  omega

section Nested

variable {nested : Reader (List Attribute)} {pool : ConstantPool}

theorem reads_methodBody {body : MethodBody} (hcode : body.code.length < 4294967296)
    (hhandlers : body.handlers.length ≤ maxCount)
    (hnested : Reads nested (countedBytes Attribute.bytes body.attributes)
      (body.attributes.map Attribute.widened)) :
    Reads (methodBody nested) body.bytes body.widened := by
  obtain ⟨maxStack, maxLocals, code, handlers, attributes⟩ := body
  have hlength : (UInt32.ofNat code.length).toNat = code.length :=
    UInt32.toNat_ofNat_of_lt' hcode
  rw [countedBytes, ← attributesBytes_eq_flatMap] at hnested
  simp only [MethodBody.bytes, MethodBody.widened, attributesWidened_eq_map, List.append_assoc]
  exact (reads_u2 _ _).bind ((reads_u2 _ _).bind ((reads_u4 _ _).bind
    ((reads_take _ hlength.symm).bind
      ((reads_counted_same reads_exceptionHandler hhandlers).bind (hnested.map _)))))

/-- Content is read from its bytes, and from no others, under its own title. -/
theorem attributeContent_bytes {content : AttributeContent} (h : content.WellFormed pool)
    (hlength : content.bytes.length < 4294967296)
    (hnested : ∀ body, content = .code body →
      Reads nested (countedBytes Attribute.bytes body.attributes)
        (body.attributes.map Attribute.widened)) :
    attributeContent nested content.title content.bytes = .ok (content.widened, []) := by
  have hwhole {parser : Reader AttributeContent} {bytes : Bytes} {value : AttributeContent}
      (hreads : Reads parser bytes value) : parser bytes = .ok (value, []) := by
    have hread := hreads []
    rwa [List.append_nil] at hread
  cases h with
  | constantValue value => exact hwhole ((reads_u2 _ value).map AttributeContent.constantValue)
  | @code body hhandlers _ _ =>
    have hcode : body.code.length < 4294967296 := by
      rw [AttributeContent.bytes, length_bytes_methodBody] at hlength
      omega
    exact hwhole ((reads_methodBody hcode hhandlers (hnested body rfl)).map AttributeContent.code)
  | stackMap hcount hframes =>
    exact hwhole ((reads_counted (fun frame hmem ↦ reads_stackMapFrame (hframes frame hmem))
      hcount).map AttributeContent.stackMap)
  | exceptions hcount =>
    exact hwhole ((reads_counted_same (fun word ↦ reads_u2 _ word) hcount).map
      AttributeContent.exceptions)
  | signature text => exact hwhole ((reads_u2 _ text).map AttributeContent.signature)
  | sourceFile text => exact hwhole ((reads_u2 _ text).map AttributeContent.sourceFile)
  | lineNumbers hcount =>
    exact hwhole ((reads_counted_same reads_lineNumber hcount).map AttributeContent.lineNumbers)
  | localVariables hcount =>
    exact hwhole ((reads_counted_same reads_localVariable hcount).map
      AttributeContent.localVariables)
  | localVariableTypes hcount =>
    exact hwhole ((reads_counted_same reads_localVariable hcount).map
      AttributeContent.localVariableTypes)
  | deprecated => rfl
  | synthetic => rfl
  | @opaqueBytes title bytes htitle =>
    simp only [AttributeContent.title]
    unfold attributeContent
    split
    case h_12 => rfl
    all_goals exact absurd htitle (by decide)

/-- An attribute is read from its title, its length and its content. -/
theorem reads_oneAttribute {attr : Attribute} (h : attr.WellFormed pool)
    (hnested : ∀ body, attr.content = .code body →
      Reads nested (countedBytes Attribute.bytes body.attributes)
        (body.attributes.map Attribute.widened)) :
    Reads (oneAttribute pool nested) attr.bytes attr.widened := by
  cases h with
  | @intro name content htitle hlength hcontent =>
    have hcount : (UInt32.ofNat content.bytes.length).toNat = content.bytes.length :=
      UInt32.toNat_ofNat_of_lt' hlength
    have hread := attributeContent_bytes hcontent hlength hnested
    simp only [Attribute.bytes, Attribute.widened, List.append_assoc]
    refine (reads_u2 _ _).bind ((reads_u4 _ _).bind ((reads_take _ hcount.symm).finish ?_))
    exact (reads_lift htitle).finish ((reads_lift hread).finish (reads_pure _))

end Nested

/-- Attributes are read once the depth is beyond the number of their bytes. -/
theorem reads_attributes {pool : ConstantPool} {depth : Nat} {attributes : List Attribute}
    (h : AttributesWellFormed pool attributes)
    (hdepth : (attributes.flatMap Attribute.bytes).length < depth) :
    Reads (Reader.attributes pool depth) (countedBytes Attribute.bytes attributes)
      (attributes.map Attribute.widened) := by
  induction depth generalizing attributes with
  | zero => exact absurd hdepth (Nat.not_lt_zero _)
  | succ depth ih =>
    refine reads_counted (fun attr hmem ↦ reads_oneAttribute (h.each attr hmem) ?_) h.count
    rintro body hbody
    obtain ⟨name, content⟩ := attr
    obtain rfl : content = .code body := hbody
    -- The attributes of the body are fewer bytes than the attribute that holds it.
    have houter := length_le_flatMap Attribute.bytes hmem
    simp only [Attribute.bytes, AttributeContent.bytes, List.length_append, length_bytes16,
      length_bytes_methodBody] at houter
    cases h.each _ hmem with
    | intro _ _ hcontent =>
      cases hcontent with
      | code _ hcount hattributes => exact ih ⟨hcount, hattributes⟩ (by omega)

/-! ### Classes -/

theorem reads_member {pool : ConstantPool} {depth : Nat} {value : Member}
    (h : AttributesWellFormed pool value.attributes) (hdepth : value.bytes.length < depth) :
    Reads (member pool depth) value.bytes value.widened := by
  have hattributes : (value.attributes.flatMap Attribute.bytes).length < depth := by
    refine Nat.lt_of_le_of_lt ?_ hdepth
    simp only [Member.bytes, countedBytes, List.length_append]
    omega
  simp only [Member.bytes, List.append_assoc]
  exact (reads_u2 _ _).bind ((reads_u2 _ _).bind ((reads_u2 _ _).bind
    ((reads_attributes h hattributes).map _)))

/-- Fields and methods. -/
theorem reads_members {pool : ConstantPool} {depth : Nat} {values : List Member}
    (hcount : values.length ≤ maxCount)
    (h : ∀ value ∈ values, AttributesWellFormed pool value.attributes)
    (hdepth : (countedBytes Member.bytes values).length < depth) :
    Reads (counted (member pool depth)) (countedBytes Member.bytes values)
      (values.map Member.widened) := by
  refine reads_counted (fun value hmem ↦ reads_member (h value hmem) ?_) hcount
  refine Nat.lt_of_le_of_lt ?_ hdepth
  rw [countedBytes, List.length_append]
  exact Nat.le_add_left_of_le (length_le_flatMap Member.bytes hmem)

theorem reads_classFile {file : ClassFile} {depth : Nat} (h : file.WellFormed)
    (hdepth : file.bytes.length < depth) :
    Reads (classFile depth) file.bytes file.widened := by
  simp only [ClassFile.bytes, List.length_append] at hdepth
  have hfields := reads_members h.fields h.fieldAttributes
    (show (countedBytes Member.bytes file.fields).length < depth by omega)
  have hmethods := reads_members h.methods h.methodAttributes
    (show (countedBytes Member.bytes file.methods).length < depth by omega)
  have hcounted : (countedBytes Attribute.bytes file.attributes).length =
      2 + (file.attributes.flatMap Attribute.bytes).length := by
    rw [countedBytes, List.length_append, length_bytes16]
  have hattributes := reads_attributes h.attributes
    (show (file.attributes.flatMap Attribute.bytes).length < depth by omega)
  have hinterfaces := reads_counted_same (fun word ↦ reads_u2 Malformation.unexpectedEnd word)
    h.interfaces
  simp only [ClassFile.bytes, List.append_assoc]
  refine (reads_u4 _ magic).bind ?_
  rw [if_neg (not_not_intro rfl)]
  exact (reads_u2 _ _).bind ((reads_u2 _ _).bind ((reads_constantPool h.pool).bind
    ((reads_u2 _ _).bind ((reads_u2 _ _).bind ((reads_u2 _ _).bind
      (hinterfaces.bind (hfields.bind (hmethods.bind (hattributes.map _)))))))))

end Reader

/-- What is written of a well-formed class is read as that class, but that compact frames whose
offset had outgrown them are read in the extended form. -/
theorem parse_bytes {file : ClassFile} (h : file.WellFormed) :
    parse file.bytes = .ok file.widened := by
  have hread := Reader.reads_classFile h (Nat.lt_succ_self file.bytes.length) []
  rw [List.append_nil] at hread
  exact except_bind_eq_ok.mpr ⟨_, hread, rfl⟩

/-- A class with a method body in which the offsets of two frames have outgrown them. -/
def outgrown : ClassFile where
  minor := 0
  major := 52
  pool := ⟨#[none, some (.utf8 "Code"), some (.utf8 "StackMapTable"), some (.long 7), none]⟩
  access := 0
  thisClass := 0
  superClass := 0
  interfaces := []
  fields := []
  methods :=
    [⟨0, 0, 0, [⟨1, .code ⟨1, 1, [0xb1], [],
      [⟨2, .stackMap [.same 64, .sameLocals1 64 .integer, .same 63]⟩]⟩⟩]⟩]
  attributes := []

theorem parse_bytes_outgrown :
    outgrown.WellFormed ∧ parse outgrown.bytes = .ok { outgrown with
      methods :=
        [⟨0, 0, 0, [⟨1, .code ⟨1, 1, [0xb1], [],
          [⟨2, .stackMap [.sameExtended 64, .sameLocals1Extended 64 .integer,
            .same 63]⟩]⟩⟩]⟩] } := by
  have hpool : outgrown.pool.WellFormed :=
    ⟨⟨[.utf8 "Code", .utf8 "StackMapTable", .long 7], rfl⟩, by decide, by
      simp only [outgrown, List.mem_cons, Option.some.injEq, Constant.utf8.injEq, reduceCtorEq,
        List.not_mem_nil, or_false, false_or]
      rintro text (rfl | rfl) <;> decide⟩
  have hattributes : AttributesWellFormed outgrown.pool [⟨1, .code ⟨1, 1, [0xb1], [],
      [⟨2, .stackMap [.same 64, .sameLocals1 64 .integer, .same 63]⟩]⟩⟩] := by
    refine ⟨by decide, List.forall_mem_singleton.mpr (.intro rfl (by decide) ?_)⟩
    refine .code (by decide) (by decide) (List.forall_mem_singleton.mpr (.intro rfl (by decide) ?_))
    exact .stackMap (by decide) (by simp [StackMapFrame.WellFormed])
  have hfile : outgrown.WellFormed :=
    ⟨hpool, by decide, by decide, nofun, by decide, List.forall_mem_singleton.mpr hattributes,
      ⟨by decide, nofun⟩⟩
  exact ⟨hfile, parse_bytes hfile⟩

end ClassWeaver.ClassFile
