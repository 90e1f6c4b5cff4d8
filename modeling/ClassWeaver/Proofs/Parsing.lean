import ClassWeaver.Bytes
import Mathlib.Data.List.Forall2

/-!
What a parser takes off its input, in both directions.

`Reads parser front value` says that the parser reads `front` as `value`, whatever follows it, and
`Spells parser print` that every value the parser gives was spelled by the bytes that `print` writes
for it. The first is what a decoder owes to an encoder and composes along `bind`; the second is
what an encoder owes to a decoder. `bind_eq_ok` opens a chain of parsers that succeeded.
-/

set_option autoImplicit false
set_option relaxedAutoImplicit false

namespace ClassWeaver

variable {ε α β : Type}

/-- Two pieces that are no longer than two others make up the same only if they are the same. -/
theorem append_eq_append_iff_of_length_le {front back : List α} {others rest : List α}
    (hfront : front.length ≤ others.length) (hback : back.length ≤ rest.length) :
    front ++ back = others ++ rest ↔ front = others ∧ back = rest := by
  constructor
  · intro h
    have hlength := congrArg List.length h
    rw [List.length_append, List.length_append] at hlength
    exact List.append_inj h (by omega)
  · rintro ⟨rfl, rfl⟩
    rfl

namespace Parser

/-! ### Opening a parser that succeeded -/

theorem bind_eq_ok {parser : Parser ε α} {next : α → Parser ε β} {input rest : Bytes} {value : β} :
    (parser >>= next) input = .ok (value, rest) ↔
      ∃ first middle, parser input = .ok (first, middle) ∧
        next first middle = .ok (value, rest) := by
  change (Except.bind (parser input) fun read ↦ next read.1 read.2) = _ ↔ _
  cases hparser : parser input with
  | error fault => simp [Except.bind]
  | ok read =>
    obtain ⟨first, middle⟩ := read
    simp [Except.bind]

theorem pure_eq_ok {value answer : α} {input rest : Bytes} :
    (pure value : Parser ε α) input = .ok (answer, rest) ↔ value = answer ∧ input = rest := by
  change (Except.ok (value, input) : Except ε (α × Bytes)) = _ ↔ _
  simp

theorem throw_ne_ok {fault : ε} {input rest : Bytes} {value : α} :
    (throw fault : Parser ε α) input ≠ .ok (value, rest) := by
  intro h
  cases h

/-- A parser that gives up first has not succeeded. -/
theorem throw_bind_ne_ok {fault : ε} {next : α → Parser ε β} {input rest : Bytes} {value : β} :
    (throw fault >>= next : Parser ε β) input ≠ .ok (value, rest) := by
  intro h
  cases h

theorem lift_eq_ok {outcome : Except ε α} {input rest : Bytes} {value : α} :
    (liftM outcome : Parser ε α) input = .ok (value, rest) ↔
      outcome = .ok value ∧ input = rest := by
  change (Except.bind outcome fun answer ↦ Except.ok (answer, input)) = _ ↔ _
  cases outcome with
  | error fault => simp [Except.bind]
  | ok answer => simp [Except.bind]

/-! ### Reading what was written -/

/-- Wherever `front` stands, the parser reads it as `value`. -/
def Reads (parser : Parser ε α) (front : Bytes) (value : α) : Prop :=
  ∀ rest, parser (front ++ rest) = .ok (value, rest)

theorem Reads.bind {parser : Parser ε α} {next : α → Parser ε β} {front others : Bytes} {first : α}
    {value : β} (hfirst : Reads parser front first) (hnext : Reads (next first) others value) :
    Reads (parser >>= next) (front ++ others) value := by
  intro rest
  rw [List.append_assoc, bind_eq_ok]
  exact ⟨first, others ++ rest, hfirst _, hnext rest⟩

theorem reads_pure (value : α) : Reads (pure value : Parser ε α) [] value :=
  fun _ ↦ rfl

theorem reads_lift {outcome : Except ε α} {value : α} (h : outcome = .ok value) :
    Reads (liftM outcome : Parser ε α) [] value :=
  fun _ ↦ lift_eq_ok.mpr ⟨h, rfl⟩

/-- The last step of a parser, which reads nothing more. -/
theorem Reads.finish {parser : Parser ε α} {next : α → Parser ε β} {front : Bytes} {first : α}
    {value : β} (hfirst : Reads parser front first) (hnext : Reads (next first) [] value) :
    Reads (parser >>= next) front value := by
  have h := hfirst.bind hnext
  rwa [List.append_nil] at h

theorem Reads.map {parser : Parser ε α} {front : Bytes} {first : α}
    (hfirst : Reads parser front first) (compute : α → β) :
    Reads (parser >>= fun first ↦ pure (compute first)) front (compute first) :=
  hfirst.finish (reads_pure _)

theorem reads_u1 (short : ε) (byte : UInt8) : Reads (u1 short) [byte] byte :=
  fun _ ↦ rfl

theorem reads_u2 (short : ε) (word : UInt16) : Reads (u2 short) (bytes16 word) word :=
  fun rest ↦ u2_bytes16 short word rest

theorem reads_u4 (short : ε) (word : UInt32) : Reads (u4 short) (bytes32 word) word :=
  fun rest ↦ u4_bytes32 short word rest

theorem reads_take (short : ε) {count : Nat} {front : Bytes} (hlength : front.length = count) :
    Reads (take short count) front front := by
  subst hlength
  exact fun rest ↦ take_append short front rest

theorem reads_times {item : Parser ε α} {count : Nat} {fronts : List Bytes} {values : List α}
    (hitems : List.Forall₂ (fun front value ↦ Reads item front value) fronts values)
    (hcount : values.length = count) : Reads (times item count) fronts.flatten values := by
  subst hcount
  induction hitems with
  | nil => exact reads_pure []
  | cons hitem _ ih => exact hitem.bind (ih.map _)

/-! ### Writing what was read -/

/-- Every value that the parser gives was spelled by the bytes that `print` writes for it. -/
def Spells (parser : Parser ε α) (print : α → Bytes) : Prop :=
  ∀ input value rest, parser input = .ok (value, rest) → input = print value ++ rest

theorem spells_u1 (short : ε) : Spells (u1 short) fun byte ↦ [byte] := by
  intro input byte rest h
  cases input with
  | nil => cases h
  | cons first others =>
    cases h
    rfl

theorem spells_u2 (short : ε) : Spells (u2 short) bytes16 := by
  intro input word rest h
  match input, h with
  | a :: b :: others, h =>
    cases h
    rw [bytes16_word16]
    rfl

theorem spells_u4 (short : ε) : Spells (u4 short) bytes32 := by
  intro input word rest h
  match input, h with
  | a :: b :: c :: d :: others, h =>
    cases h
    rw [bytes32_word32]
    rfl

theorem take_eq_ok {short : ε} {count : Nat} {input front rest : Bytes}
    (h : take short count input = .ok (front, rest)) :
    input = front ++ rest ∧ front.length = count := by
  simp only [take] at h
  split at h
  · rename_i hlength
    cases h
    exact ⟨(List.take_append_drop count input).symm, hlength⟩
  · cases h

theorem Spells.map {parser : Parser ε α} {print : α → Bytes} {printResult : β → Bytes}
    (hspells : Spells parser print) {compute : α → β}
    (hprint : ∀ value, printResult (compute value) = print value) :
    Spells (parser >>= fun value ↦ pure (compute value)) printResult := by
  intro input result rest h
  obtain ⟨value, middle, hvalue, h⟩ := bind_eq_ok.mp h
  obtain ⟨rfl, rfl⟩ := pure_eq_ok.mp h
  rw [hprint, hspells _ _ _ hvalue]

theorem spells_pure {value : α} {print : α → Bytes} (hprint : print value = []) :
    Spells (pure value : Parser ε α) print := by
  intro input result rest h
  obtain ⟨rfl, rfl⟩ := pure_eq_ok.mp h
  rw [hprint, List.nil_append]

/-- Items that are read one by one are spelled one after the other. -/
theorem spells_times {item : Parser ε α} {print : α → Bytes} (hitem : Spells item print)
    (count : Nat) : Spells (times item count) (List.flatMap print) := by
  induction count with
  | zero =>
    intro input values rest h
    obtain ⟨rfl, rfl⟩ := pure_eq_ok.mp h
    rfl
  | succ count ih =>
    intro input values rest h
    obtain ⟨first, middle, hfirst, h⟩ := bind_eq_ok.mp h
    obtain ⟨others, last, hothers, h⟩ := bind_eq_ok.mp h
    obtain ⟨rfl, rfl⟩ := pure_eq_ok.mp h
    rw [hitem _ _ _ hfirst, ih _ _ _ hothers, List.flatMap_cons, List.append_assoc]

theorem length_of_times {item : Parser ε α} {count : Nat} {input rest : Bytes} {values : List α}
    (h : times item count input = .ok (values, rest)) : values.length = count := by
  induction count generalizing input values rest with
  | zero =>
    obtain ⟨rfl, -⟩ := pure_eq_ok.mp h
    rfl
  | succ count ih =>
    obtain ⟨first, middle, -, h⟩ := bind_eq_ok.mp h
    obtain ⟨others, last, hothers, h⟩ := bind_eq_ok.mp h
    obtain ⟨rfl, -⟩ := pure_eq_ok.mp h
    rw [List.length_cons, ih hothers]

/-! ### Counting what was read -/

/-- Whenever it succeeds, the parser takes this many bytes. -/
def Takes (parser : Parser ε α) (count : Nat) : Prop :=
  ∀ input value rest, parser input = .ok (value, rest) → input.length = rest.length + count

theorem Spells.takes {parser : Parser ε α} {print : α → Bytes} {count : Nat}
    (hspells : Spells parser print) (hlength : ∀ value, (print value).length = count) :
    Takes parser count := by
  intro input value rest h
  rw [hspells _ _ _ h, List.length_append, hlength, Nat.add_comm]

theorem takes_u1 (short : ε) : Takes (u1 short) 1 :=
  (spells_u1 short).takes fun _ ↦ rfl

theorem takes_u2 (short : ε) : Takes (u2 short) 2 :=
  (spells_u2 short).takes length_bytes16

theorem takes_u4 (short : ε) : Takes (u4 short) 4 :=
  (spells_u4 short).takes length_bytes32

theorem takes_times {item : Parser ε α} {width : Nat} (hitem : Takes item width) (count : Nat) :
    Takes (times item count) (width * count) := by
  induction count with
  | zero =>
    intro input values rest h
    obtain ⟨-, rfl⟩ := pure_eq_ok.mp h
    rfl
  | succ count ih =>
    intro input values rest h
    obtain ⟨first, middle, hfirst, h⟩ := bind_eq_ok.mp h
    obtain ⟨others, last, hothers, h⟩ := bind_eq_ok.mp h
    obtain ⟨-, rfl⟩ := pure_eq_ok.mp h
    rw [hitem _ _ _ hfirst, ih _ _ _ hothers, Nat.mul_succ, Nat.add_assoc]

end Parser

end ClassWeaver
