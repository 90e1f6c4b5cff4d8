import ClassWeaver.Proofs.Code.Editing
import ClassWeaver.Proofs.Descriptor
import ClassWeaver.Transformer.Factory

/-!
Which instructions make up the constructions that a factory replaces.

Every construction that was found is a `new` with a `dup` behind it and a later call of a
constructor, and every `new` of the product is part of one (`finds_of_pair`).
-/

set_option autoImplicit false
set_option relaxedAutoImplicit false

namespace ClassWeaver.Factory

open ClassFile Code

variable {pool : ConstantPool} {product : String} {instruction : Instruction}
  {instructions : List Instruction}

/-! ### Single instructions -/

theorem resolved_eq_ok {α : Type} {outcome : Except Malformation α} {answer : α} :
    resolved outcome = .ok answer ↔ outcome = .ok answer := by
  cases outcome with
  | ok found => simp [resolved]
  | error cause => simp [resolved]

theorem opcode_of_allocates (h : allocates pool product instruction = .ok true) :
    instruction.opcode = .new := by
  rw [allocates] at h
  split at h
  · assumption
  · cases h

theorem constructs?_eq_some {descriptor : String}
    (h : constructs? pool product instruction = .ok (some descriptor)) :
    instruction.opcode = .invokespecial ∧ ∃ index, instruction.poolIndex? = some index ∧
      pool.memberRef index = .ok ⟨product, "<init>", descriptor⟩ := by
  rw [constructs?] at h
  split at h
  · rename_i hopcode
    split at h
    · rename_i index hindex
      obtain ⟨member, hmember, h⟩ := except_bind_eq_ok.mp h
      split at h
      · rename_i hnames
        obtain ⟨owner, name, text⟩ := member
        obtain ⟨rfl, rfl⟩ : owner = product ∧ name = "<init>" := hnames
        obtain rfl : text = descriptor := Option.some.inj (Except.ok.inj h)
        exact ⟨hopcode, index, hindex, hmember⟩
      · cases h
    · cases h
  · cases h

/-! ### The scan -/

/-- A `new` of the product with a `dup` behind it. -/
structure Opens (pool : ConstantPool) (product : String) (instructions : List Instruction)
    (index : Nat) : Prop where
  allocation : ∃ instruction, instructions[index]? = some instruction ∧
    allocates pool product instruction = .ok true
  copy : ∃ next, instructions[index + 1]? = some next ∧ next.opcode = .dup

/-- A `new` of the product, the `dup` behind it and a later call of a constructor. -/
structure Completed (pool : ConstantPool) (product : String) (instructions : List Instruction)
    (found : Construction) : Prop where
  opens : Opens pool product instructions found.allocation
  call : ∃ instruction, instructions[found.call]? = some instruction ∧
    constructs? pool product instruction = .ok (some found.descriptor)
  order : found.allocation < found.call

/-- What the scan does with one instruction: it opens a construction, passes the instruction over,
or completes the latest construction that is open. Constructor calls are passed over while none is
open. -/
theorem pair_cons_cases {opened : List Allocation} {found : List Construction} {index : Nat}
    {rest : List (Instruction × Nat)}
    (h : pair pool product opened ((instruction, index) :: rest) = .ok found) :
    (allocates pool product instruction = .ok true ∧
      (∃ next place, rest.head? = some (next, place) ∧ next.opcode = .dup) ∧
        pair pool product (⟨index, instruction.origin.getD 0⟩ :: opened) rest = .ok found) ∨
    (allocates pool product instruction = .ok false ∧
      (opened = [] ∨ constructs? pool product instruction = .ok none) ∧
        pair pool product opened rest = .ok found) ∨
    (allocates pool product instruction = .ok false ∧ ∃ latest others descriptor later,
      opened = latest :: others ∧
        constructs? pool product instruction = .ok (some descriptor) ∧
          pair pool product others rest = .ok later ∧
            found = ⟨latest.index, index, descriptor⟩ :: later) := by
  rw [pair.eq_def] at h
  dsimp only at h
  obtain ⟨isAllocation, hallocates, h⟩ := except_bind_eq_ok.mp h
  rw [resolved_eq_ok] at hallocates
  cases isAllocation with
  | true =>
    refine .inl ⟨hallocates, ?_⟩
    rw [if_pos rfl] at h
    cases rest with
    | nil => cases h
    | cons first others =>
      obtain ⟨next, place⟩ := first
      by_cases hdup : next.opcode = .dup
      · refine ⟨⟨next, place, rfl, hdup⟩, ?_⟩
        simpa [hdup] using h
      · simp [hdup] at h
        cases h
  | false =>
    rw [if_neg Bool.false_ne_true] at h
    cases opened with
    | nil => exact .inr (.inl ⟨hallocates, .inl rfl, h⟩)
    | cons latest others =>
      obtain ⟨called, hcalled, h⟩ := except_bind_eq_ok.mp h
      rw [resolved_eq_ok] at hcalled
      cases called with
      | none => exact .inr (.inl ⟨hallocates, .inr hcalled, h⟩)
      | some descriptor =>
        obtain ⟨later, hlater, h⟩ := except_bind_eq_ok.mp h
        cases h
        exact .inr (.inr ⟨hallocates, latest, others, descriptor, later, rfl, hcalled, hlater, rfl⟩)

/-- A scan from instruction `start` on, step by step; `opened` holds the allocations that are open
there, the latest one first. -/
inductive Scanned (pool : ConstantPool) (product : String) (instructions : List Instruction) :
    (opened : List Allocation) → (start : Nat) → (found : List Construction) → Prop
  | stop {start : Nat} (hstop : instructions.length ≤ start) :
      Scanned pool product instructions [] start []
  | opening {opened : List Allocation} {start offset : Nat} {found : List Construction}
      {instruction next : Instruction} (hhere : instructions[start]? = some instruction)
      (hallocates : allocates pool product instruction = .ok true)
      (hnext : instructions[start + 1]? = some next) (hcopy : next.opcode = .dup)
      (hrest : Scanned pool product instructions (⟨start, offset⟩ :: opened) (start + 1) found) :
      Scanned pool product instructions opened start found
  | passing {opened : List Allocation} {start : Nat} {found : List Construction}
      {instruction : Instruction} (hhere : instructions[start]? = some instruction)
      (hallocates : allocates pool product instruction = .ok false)
      (hother : opened = [] ∨ constructs? pool product instruction = .ok none)
      (hrest : Scanned pool product instructions opened (start + 1) found) :
      Scanned pool product instructions opened start found
  | completing {latest : Allocation} {others : List Allocation} {start : Nat}
      {later : List Construction} {instruction : Instruction} {descriptor : String}
      (hhere : instructions[start]? = some instruction)
      (hallocates : allocates pool product instruction = .ok false)
      (hcalled : constructs? pool product instruction = .ok (some descriptor))
      (hrest : Scanned pool product instructions others (start + 1) later) :
      Scanned pool product instructions (latest :: others) start
        (⟨latest.index, start, descriptor⟩ :: later)

theorem scanned_of_pair {opened : List Allocation} {found : List Construction} {start : Nat}
    (h : pair pool product opened ((instructions.drop start).zipIdx start) = .ok found) :
    Scanned pool product instructions opened start found := by
  generalize hsuffix : instructions.drop start = suffix at h
  induction suffix generalizing opened found start with
  | nil =>
    rw [List.zipIdx_nil, pair] at h
    split at h
    · cases h
    · rename_i hnone
      cases h
      rw [List.getLast?_eq_none_iff] at hnone
      exact hnone ▸ .stop (List.drop_eq_nil_iff.mp hsuffix)
  | cons instruction rest ih =>
    have hhere : instructions[start]? = some instruction := by
      have := congrArg (·[0]?) hsuffix
      simpa using this
    have hrest : instructions.drop (start + 1) = rest := by
      rw [← List.drop_drop, hsuffix]
      rfl
    rw [List.zipIdx_cons] at h
    rcases pair_cons_cases h with
      ⟨hallocates, ⟨next, place, hnext, hdup⟩, hscan⟩ | ⟨hallocates, hother, hscan⟩ |
        ⟨hallocates, latest, others, descriptor, later, rfl, hcalled, hscan, rfl⟩
    · rw [← hrest, List.head?_zipIdx, List.head?_drop, Option.map_eq_some_iff] at hnext
      obtain ⟨second, hsecond, hpair⟩ := hnext
      exact .opening hhere hallocates hsecond ((Prod.mk.inj hpair).1 ▸ hdup) (ih hrest hscan)
    · exact .passing hhere hallocates hother (ih hrest hscan)
    · exact .completing hhere hallocates hcalled (ih hrest hscan)

/-- What a scan from an instruction on finds: constructions that are completed, those that were
open already and those of every later `new` of the product. -/
structure Finds (pool : ConstantPool) (product : String) (instructions : List Instruction)
    (opened : List Allocation) (start : Nat) (found : List Construction) : Prop where
  completed : ∀ construction ∈ found, Completed pool product instructions construction
  opened : ∀ allocation ∈ opened, ∃ construction ∈ found,
    construction.allocation = allocation.index
  later : ∀ index instruction, start ≤ index → instructions[index]? = some instruction →
    allocates pool product instruction = .ok true →
      ∃ construction ∈ found, construction.allocation = index

namespace Finds

variable {opened : List Allocation} {found : List Construction} {start : Nat}

theorem opening {offset : Nat}
    (h : Finds pool product instructions (⟨start, offset⟩ :: opened) (start + 1) found) :
    Finds pool product instructions opened start found where
  completed := h.completed
  opened := (List.forall_mem_cons.mp h.opened).2
  later index other hindex hother hnew := by
    rcases Nat.eq_or_lt_of_le hindex with rfl | hbehind
    · exact (List.forall_mem_cons.mp h.opened).1
    · exact h.later index other hbehind hother hnew

theorem passing (h : Finds pool product instructions opened (start + 1) found)
    (hhere : instructions[start]? = some instruction)
    (hallocates : allocates pool product instruction = .ok false) :
    Finds pool product instructions opened start found where
  completed := h.completed
  opened := h.opened
  later index other hindex hother hnew := by
    rcases Nat.eq_or_lt_of_le hindex with rfl | hbehind
    · rw [Option.some.inj (hhere.symm.trans hother), hnew] at hallocates
      cases hallocates
    · exact h.later index other hbehind hother hnew

theorem completing {construction : Construction} {latest : Allocation}
    (h : Finds pool product instructions opened start found)
    (hcompleted : Completed pool product instructions construction)
    (hlatest : construction.allocation = latest.index) :
    Finds pool product instructions (latest :: opened) start (construction :: found) where
  completed := List.forall_mem_cons.mpr ⟨hcompleted, h.completed⟩
  opened := by
    refine List.forall_mem_cons.mpr ⟨⟨_, List.mem_cons_self .., hlatest⟩, fun other hother ↦ ?_⟩
    obtain ⟨found, hmem, hsame⟩ := h.opened other hother
    exact ⟨found, List.mem_cons_of_mem _ hmem, hsame⟩
  later index other hindex hother hnew := by
    obtain ⟨found, hmem, hsame⟩ := h.later index other hindex hother hnew
    exact ⟨found, List.mem_cons_of_mem _ hmem, hsame⟩

end Finds

theorem finds_of_scanned {opened : List Allocation} {found : List Construction} {start : Nat}
    (h : Scanned pool product instructions opened start found)
    (hopened : ∀ allocation ∈ opened,
      Opens pool product instructions allocation.index ∧ allocation.index < start) :
    Finds pool product instructions opened start found := by
  have hlater {opened : List Allocation} {start : Nat} (hopened : ∀ allocation ∈ opened,
      Opens pool product instructions allocation.index ∧ allocation.index < start) :
      ∀ allocation ∈ opened,
        Opens pool product instructions allocation.index ∧ allocation.index < start + 1 :=
    fun allocation hmem ↦ (hopened allocation hmem).imp_right Nat.lt_succ_of_lt
  induction h with
  | stop hstop =>
    refine ⟨nofun, nofun, fun index instruction hindex hinstruction ↦ ?_⟩
    rw [List.getElem?_eq_none (by omega)] at hinstruction
    cases hinstruction
  | @opening opened start _ _ instruction next hhere hallocates hnext hcopy _ ih =>
    have hopens : Opens pool product instructions start :=
      ⟨⟨instruction, hhere, hallocates⟩, next, hnext, hcopy⟩
    exact (ih (List.forall_mem_cons.mpr ⟨⟨hopens, Nat.lt_succ_self start⟩, hlater hopened⟩)).opening
  | passing hhere hallocates _ _ ih => exact (ih (hlater hopened)).passing hhere hallocates
  | @completing latest others start _ instruction descriptor hhere hallocates hcalled _ ih =>
    obtain ⟨⟨hopens, hbefore⟩, hothers⟩ := List.forall_mem_cons.mp hopened
    have hcompleted : Completed pool product instructions ⟨latest.index, start, descriptor⟩ :=
      ⟨hopens, ⟨instruction, hhere, hcalled⟩, hbefore⟩
    exact ((ih (hlater hothers)).completing hcompleted rfl).passing hhere hallocates

theorem finds_of_pair {opened : List Allocation} {found : List Construction} {start : Nat}
    (hopened : ∀ allocation ∈ opened,
      Opens pool product instructions allocation.index ∧ allocation.index < start)
    (h : pair pool product opened ((instructions.drop start).zipIdx start) = .ok found) :
    Finds pool product instructions opened start found :=
  finds_of_scanned (scanned_of_pair h) hopened

end ClassWeaver.Factory
