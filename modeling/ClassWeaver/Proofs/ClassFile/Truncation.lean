import ClassWeaver.ClassFile.Parser
import ClassWeaver.Proofs.Attempt
import ClassWeaver.Proofs.Parsing

/-!
Class files that are cut short, and class files with bytes behind them.

No class file is the beginning of another one. What a reader takes off its input decides what it
gives: bytes behind that do not matter, and without the last of them it stops with the failure
that more bytes were expected (`Parser.PrefixFree`). The bytes of an attribute are taken before
anything in them is looked at, so that this needs to be known of the readers around attributes
only. How deep attributes may nest depends on the length of the whole input, so that readers of
two depths are compared (`Parser.Approximates`). `parse_of_cut_or_extended` is the outcome.
-/

set_option autoImplicit false
set_option relaxedAutoImplicit false

namespace ClassWeaver.Parser

variable {ε α β : Type} {short : ε}

/-! ### Parsers that stop short -/

/-- The parser gives what `deeper` gives, whatever follows, or it stops short; and it does stop
short if it is not given all the bytes that `deeper` takes. -/
structure Approximates (short : ε) (parser deeper : Parser ε α) : Prop where
  extend : ∀ {input : Bytes} {value : α} {rest : Bytes}, parser input = .ok (value, rest) →
    ∀ more, deeper (input ++ more) = .ok (value, rest ++ more)
  cut : ∀ {input more : Bytes} {value : α} {rest : Bytes},
    deeper (input ++ more) = .ok (value, rest) →
      (∃ kept, parser input = .ok (value, kept) ∧ rest = kept ++ more) ∨
        parser input = .error short

/-- The bytes that the parser takes decide what it gives. -/
abbrev PrefixFree (short : ε) (parser : Parser ε α) : Prop :=
  Approximates short parser parser

section Rules

variable {first deeperFirst : Parser ε α} {next deeperNext : α → Parser ε β}

theorem bind_of_ok {input middle : Bytes} {value : α} (h : first input = .ok (value, middle)) :
    (first >>= next) input = next value middle := by
  change (Except.bind (first input) fun read ↦ next read.1 read.2) = _
  rw [h]
  rfl

theorem bind_of_error {input : Bytes} {fault : ε} (h : first input = .error fault) :
    (first >>= next) input = .error fault := by
  change (Except.bind (first input) fun read ↦ next read.1 read.2) = _
  rw [h]
  rfl

theorem Approximates.bind (h : Approximates short first deeperFirst)
    (hnext : ∀ value, Approximates short (next value) (deeperNext value)) :
    Approximates short (first >>= next) (deeperFirst >>= deeperNext) where
  extend hread more := by
    obtain ⟨value, middle, hfirst, hrest⟩ := bind_eq_ok.mp hread
    exact bind_eq_ok.mpr ⟨value, middle ++ more, h.extend hfirst more,
      (hnext value).extend hrest more⟩
  cut hread := by
    obtain ⟨value, middle, hfirst, hrest⟩ := bind_eq_ok.mp hread
    rcases h.cut hfirst with ⟨kept, hkept, rfl⟩ | hshort
    · rw [bind_of_ok hkept]
      exact (hnext value).cut hrest
    · exact .inr (bind_of_error hshort)

theorem prefixFree_pure (value : α) : PrefixFree short (pure value : Parser ε α) where
  extend hread more := by
    obtain ⟨rfl, rfl⟩ := pure_eq_ok.mp hread
    rfl
  cut hread := by
    obtain ⟨rfl, rfl⟩ := pure_eq_ok.mp hread
    exact .inl ⟨_, rfl, rfl⟩

/-- What the parsers give goes into a result. -/
theorem Approximates.map (h : Approximates short first deeperFirst) (compute : α → β) :
    Approximates short (first >>= fun value ↦ pure (compute value))
      (deeperFirst >>= fun value ↦ pure (compute value)) :=
  h.bind fun value ↦ prefixFree_pure (compute value)

/-- Parsers that never succeed take no bytes. -/
theorem approximates_of_fails {parser deeper : Parser ε α}
    (h : ∀ {input value rest}, parser input ≠ .ok (value, rest))
    (hdeeper : ∀ {input value rest}, deeper input ≠ .ok (value, rest)) :
    Approximates short parser deeper where
  extend hread _ := absurd hread h
  cut hread := absurd hread hdeeper

theorem prefixFree_throw (fault : ε) : PrefixFree short (throw fault : Parser ε α) :=
  approximates_of_fails throw_ne_ok throw_ne_ok

/-- To stop at once is to stop short of anything. -/
theorem approximates_throw (deeper : Parser ε α) : Approximates short (throw short) deeper where
  extend hread _ := absurd hread throw_ne_ok
  cut _ := .inr rfl

theorem Approximates.times (h : Approximates short first deeperFirst) (count : Nat) :
    Approximates short (times first count) (times deeperFirst count) := by
  induction count with
  | zero => exact prefixFree_pure []
  | succ count ih => exact h.bind fun value ↦ ih.map (value :: ·)

end Rules

/-! ### Words and bytes -/

theorem prefixFree_u1 (short : ε) : PrefixFree short (u1 short) where
  extend {input} _ _ hread more := by
    match input, hread with
    | _ :: _, hread =>
      cases hread
      rfl
  cut {input} _ _ _ hread := by
    match input, hread with
    | [], _ => exact .inr rfl
    | _ :: _, hread =>
      cases hread
      exact .inl ⟨_, rfl, rfl⟩

theorem prefixFree_u2 (short : ε) : PrefixFree short (u2 short) where
  extend {input} _ _ hread more := by
    match input, hread with
    | _ :: _ :: _, hread =>
      cases hread
      rfl
  cut {input} _ _ _ hread := by
    match input, hread with
    | [], _ | [_], _ => exact .inr rfl
    | _ :: _ :: _, hread =>
      cases hread
      exact .inl ⟨_, rfl, rfl⟩

theorem prefixFree_u4 (short : ε) : PrefixFree short (u4 short) where
  extend {input} _ _ hread more := by
    match input, hread with
    | _ :: _ :: _ :: _ :: _, hread =>
      cases hread
      rfl
  cut {input} _ _ _ hread := by
    match input, hread with
    | [], _ | [_], _ | [_, _], _ | [_, _, _], _ => exact .inr rfl
    | _ :: _ :: _ :: _ :: _, hread =>
      cases hread
      exact .inl ⟨_, rfl, rfl⟩

theorem prefixFree_u8 (short : ε) : PrefixFree short (u8 short) :=
  (prefixFree_u4 short).bind fun high ↦ (prefixFree_u4 short).map (word64 high)

theorem prefixFree_take (short : ε) (count : Nat) : PrefixFree short (take short count) where
  extend hread more := by
    obtain ⟨rfl, rfl⟩ := take_eq_ok hread
    rw [List.append_assoc, take_append]
  cut {input more front rest} hread := by
    obtain ⟨hsplit, rfl⟩ := take_eq_ok hread
    rcases Nat.lt_or_ge input.length front.length with hless | henough
    · right
      rw [take, List.take_of_length_le (Nat.le_of_lt hless), if_neg (Nat.ne_of_lt hless)]
    · obtain ⟨kept, hinput⟩ : front <+: input :=
        List.prefix_of_prefix_length_le ⟨rest, hsplit.symm⟩ (List.prefix_append input more) henough
      rw [← hinput, List.append_assoc] at hsplit
      refine .inl ⟨kept, ?_, (List.append_cancel_left hsplit).symm⟩
      rw [← hinput, take_append]

/-! ### Parts that are read for themselves -/

/-- The first answer is the second one, or it was stopped short of it. -/
structure StopsShort (short : ε) (outcome deeper : Except ε α) : Prop where
  settled : ∀ {answer}, outcome = .ok answer → deeper = .ok answer
  stopped : ∀ {answer}, deeper = .ok answer → outcome = .ok answer ∨ outcome = .error short

theorem stopsShort_refl (outcome : Except ε α) : StopsShort short outcome outcome :=
  ⟨id, .inl⟩

theorem Approximates.stopsShort {parser deeper : Parser ε α}
    (h : Approximates short parser deeper) (data : Bytes) :
    StopsShort short (parser data) (deeper data) where
  settled {answer} hread := by
    have hextended := h.extend hread []
    rwa [List.append_nil, List.append_nil] at hextended
  stopped {answer} hread := by
    have hcut : deeper (data ++ []) = .ok (answer.1, answer.2) → _ := h.cut
    rw [List.append_nil] at hcut
    rcases hcut hread with ⟨kept, hkept, hrest⟩ | hshort
    · rw [List.append_nil] at hrest
      exact .inl (hkept.trans (by rw [← hrest]))
    · exact .inr hshort

/-- What was found out without the input. -/
theorem StopsShort.lift {outcome deeper : Except ε α} (h : StopsShort short outcome deeper) :
    Approximates short (liftM outcome : Parser ε α) (liftM deeper) where
  extend hread more := by
    obtain ⟨houtcome, rfl⟩ := lift_eq_ok.mp hread
    exact lift_eq_ok.mpr ⟨h.settled houtcome, rfl⟩
  cut hread := by
    obtain ⟨hdeeper, rfl⟩ := lift_eq_ok.mp hread
    rcases h.stopped hdeeper with hsettled | hshort
    · exact .inl ⟨_, lift_eq_ok.mpr ⟨hsettled, rfl⟩, rfl⟩
    · right
      rw [hshort]
      rfl

end ClassWeaver.Parser

namespace ClassWeaver.ClassFile

open ClassWeaver.Parser

namespace Reader

theorem approximates_counted {α : Type} {item deeper : Reader α}
    (h : Approximates .unexpectedEnd item deeper) :
    Approximates .unexpectedEnd (counted item) (counted deeper) :=
  (prefixFree_u2 _).bind fun count ↦ h.times count.toNat

/-! ### The constant pool -/

theorem prefixFree_reference (wrap : UInt16 → Constant) :
    PrefixFree .unexpectedEnd (u2 >>= fun index ↦ pure (wrap index)) :=
  (prefixFree_u2 _).map wrap

theorem prefixFree_references (wrap : UInt16 → UInt16 → Constant) :
    PrefixFree .unexpectedEnd (u2 >>= fun first ↦ u2 >>= fun second ↦ pure (wrap first second)) :=
  (prefixFree_u2 _).bind fun first ↦ prefixFree_reference (wrap first)

theorem prefixFree_constant : PrefixFree .unexpectedEnd constant := by
  refine (prefixFree_u1 _).bind fun tag ↦ ?_
  split
  case h_1 =>
    refine (prefixFree_u2 _).bind fun length ↦ (prefixFree_take _ _).bind fun encoded ↦ ?_
    split
    · exact prefixFree_pure _
    · exact prefixFree_throw _
  case h_2 | h_3 => exact (prefixFree_u4 _).map _
  case h_4 | h_5 => exact (prefixFree_u8 _).map _
  case h_6 | h_7 | h_13 | h_16 | h_17 => exact prefixFree_reference _
  case h_8 | h_9 | h_10 | h_11 | h_14 | h_15 => exact prefixFree_references _
  case h_12 => exact (prefixFree_u1 _).bind fun kind ↦ prefixFree_reference _
  case h_18 => exact prefixFree_throw _

theorem prefixFree_constants (declared : UInt16) (room : Nat) :
    PrefixFree .unexpectedEnd (constants declared room) := by
  induction room using constants.induct with
  | case1 => exact prefixFree_pure []
  | case2 =>
    refine prefixFree_constant.bind fun entry ↦ ?_
    cases entry.isWide with
    | true => exact approximates_of_fails throw_bind_ne_ok throw_bind_ne_ok
    | false => exact prefixFree_pure _
  | case3 room ihWide ihNarrow =>
    refine prefixFree_constant.bind fun entry ↦ ?_
    cases entry.isWide with
    | true => exact ihWide.map _
    | false => exact ihNarrow.map _

theorem prefixFree_constantPool : PrefixFree .unexpectedEnd constantPool :=
  (prefixFree_u2 _).bind fun declared ↦ (prefixFree_constants declared _).map _

/-! ### Attributes -/

theorem prefixFree_exceptionHandler : PrefixFree .unexpectedEnd exceptionHandler :=
  (prefixFree_u2 _).bind fun _ ↦ (prefixFree_u2 _).bind fun _ ↦
    (prefixFree_u2 _).bind fun _ ↦ (prefixFree_u2 _).map _

section Nested

variable {nested deeper : Reader (List Attribute)}

theorem approximates_methodBody (h : Approximates .unexpectedEnd nested deeper) :
    Approximates .unexpectedEnd (methodBody nested) (methodBody deeper) :=
  (prefixFree_u2 _).bind fun _ ↦ (prefixFree_u2 _).bind fun _ ↦
    (prefixFree_u4 _).bind fun _ ↦ (prefixFree_take _ _).bind fun _ ↦
    (approximates_counted prefixFree_exceptionHandler).bind fun _ ↦ h.map _

/-- Only a method body has attributes inside it. -/
theorem stopsShort_attributeContent (h : Approximates .unexpectedEnd nested deeper)
    (title : String) (data : Bytes) :
    StopsShort .unexpectedEnd (attributeContent nested title data)
      (attributeContent deeper title data) := by
  unfold attributeContent
  split
  case h_2 => exact ((approximates_methodBody h).map AttributeContent.code).stopsShort data
  all_goals exact stopsShort_refl _

theorem approximates_oneAttribute (pool : ConstantPool)
    (h : Approximates .unexpectedEnd nested deeper) :
    Approximates .unexpectedEnd (oneAttribute pool nested) (oneAttribute pool deeper) := by
  refine (prefixFree_u2 _).bind fun name ↦ (prefixFree_u4 _).bind fun length ↦
    (prefixFree_take _ _).bind fun data ↦ ?_
  refine (stopsShort_refl (pool.text name)).lift.bind fun title ↦
    (stopsShort_attributeContent h title data).lift.bind fun ⟨content, rest⟩ ↦ ?_
  dsimp only
  cases List.isEmpty rest with
  | true => exact prefixFree_pure _
  | false => exact prefixFree_throw _

end Nested

/-- A reader of lesser depth stops short of attributes that nest deeper. -/
theorem approximates_attributes (pool : ConstantPool) {depth deeper : Nat} (h : depth ≤ deeper) :
    Approximates .unexpectedEnd (attributes pool depth) (attributes pool deeper) := by
  induction depth generalizing deeper with
  | zero => exact approximates_throw _
  | succ depth ih =>
    cases deeper with
    | zero => exact absurd h (Nat.not_succ_le_zero depth)
    | succ deeper =>
      exact approximates_counted (approximates_oneAttribute pool (ih (Nat.le_of_succ_le_succ h)))

/-! ### Classes -/

theorem approximates_member (pool : ConstantPool) {depth deeper : Nat} (h : depth ≤ deeper) :
    Approximates .unexpectedEnd (member pool depth) (member pool deeper) :=
  (prefixFree_u2 _).bind fun _ ↦ (prefixFree_u2 _).bind fun _ ↦
    (prefixFree_u2 _).bind fun _ ↦ (approximates_attributes pool h).map _

theorem approximates_classFile {depth deeper : Nat} (h : depth ≤ deeper) :
    Approximates .unexpectedEnd (classFile depth) (classFile deeper) := by
  refine (prefixFree_u4 _).bind fun found ↦ ?_
  by_cases hfound : found ≠ magic
  · simp only [if_pos hfound]
    exact approximates_of_fails throw_bind_ne_ok throw_bind_ne_ok
  simp only [if_neg hfound]
  exact (prefixFree_u2 _).bind fun minor ↦ (prefixFree_u2 _).bind fun major ↦
    prefixFree_constantPool.bind fun pool ↦ (prefixFree_u2 _).bind fun _ ↦
    (prefixFree_u2 _).bind fun thisClass ↦ (prefixFree_u2 _).bind fun superClass ↦
    (approximates_counted (prefixFree_u2 _)).bind fun interfaces ↦
    (approximates_counted (approximates_member pool h)).bind fun fields ↦
    (approximates_counted (approximates_member pool h)).bind fun methods ↦
    (approximates_attributes pool h).map _

end Reader

/-- A class was read from its first byte to its last. -/
theorem parse_eq_ok_iff {input : Bytes} {file : ClassFile} :
    parse input = .ok file ↔ Reader.classFile (input.length + 1) input = .ok (file, []) := by
  constructor
  · intro h
    obtain ⟨⟨read, rest⟩, hread, h⟩ := except_bind_eq_ok.mp h
    dsimp only at h
    split at h
    · rename_i hused
      cases h
      rw [hread, List.isEmpty_iff.mp hused]
    · cases h
  · exact fun h ↦ except_bind_eq_ok.mpr ⟨_, h, rfl⟩

/-- No proper beginning of a class file is one, since bytes are missing; and nothing may follow a
class file, since bytes are left over then. -/
theorem parse_of_cut_or_extended {input : Bytes} {file : ClassFile} (h : parse input = .ok file) :
    (∀ front, front <+: input → front ≠ input → parse front = .error .unexpectedEnd) ∧
      ∀ more, more ≠ [] → parse (input ++ more) = .error (.trailingBytes more.length) := by
  have hread := parse_eq_ok_iff.mp h
  constructor
  · rintro front ⟨more, rfl⟩ hproper
    have hdepth : front.length + 1 ≤ (front ++ more).length + 1 :=
      Nat.succ_le_succ (List.prefix_append front more).length_le
    rcases (Reader.approximates_classFile hdepth).cut hread with ⟨kept, -, hnone⟩ | hshort
    · obtain ⟨-, rfl⟩ := List.append_eq_nil_iff.mp hnone.symm
      exact absurd (List.append_nil front).symm hproper
    · rw [parse, hshort]
      rfl
  · intro more hmore
    have hdepth : input.length + 1 ≤ (input ++ more).length + 1 :=
      Nat.succ_le_succ (List.prefix_append input more).length_le
    have hextended := (Reader.approximates_classFile hdepth).extend hread more
    rw [List.nil_append] at hextended
    have hleft : more.isEmpty = false := List.isEmpty_eq_false_iff.mpr hmore
    rw [parse, hextended]
    change (if more.isEmpty = true then _ else _) = _
    rw [hleft]
    rfl

/-- A class with a method that returns at once. -/
def returningMethod : Bytes :=
  [0xCA, 0xFE, 0xBA, 0xBE, 0, 0, 0, 52, 0, 5, 1, 0, 1, 65, 7, 0, 1, 1, 0, 4, 67, 111, 100, 101,
    1, 0, 1, 109, 0, 0, 0, 2, 0, 0, 0, 0, 0, 0, 0, 1, 0, 0, 0, 4, 0, 1, 0, 1, 0, 3, 0, 0, 0, 13,
    0, 0, 0, 1, 0, 0, 0, 1, 0xB1, 0, 0, 0, 0, 0, 0]

/-- It is cut in its method body, and two bytes are put behind it. -/
theorem parse_of_cut_or_extended_returningMethod :
    ∃ file front, parse returningMethod = .ok file ∧ front <+: returningMethod ∧
      front ≠ returningMethod ∧ front.length = 60 ∧ parse front = .error .unexpectedEnd ∧
      parse (returningMethod ++ [0, 0]) = .error (.trailingBytes 2) := by
  have hparse : parse returningMethod = .ok _ := rfl
  have hcut : returningMethod.take 60 <+: returningMethod := List.take_prefix 60 returningMethod
  obtain ⟨hprefixes, hextensions⟩ := parse_of_cut_or_extended hparse
  exact ⟨_, returningMethod.take 60, hparse, hcut, by decide, rfl, hprefixes _ hcut (by decide),
    hextensions [0, 0] (List.cons_ne_nil 0 [0])⟩

end ClassWeaver.ClassFile
