import ClassWeaver.Proofs.Transformer.Pairing
import Mathlib.Data.List.Nodup
import Mathlib.Data.List.Pairwise

/-!
Allocations and constructor calls as brackets.

An allocation of the product opens a bracket, and a call of its constructor closes the latest one
that is open; a call while none is open closes nothing. The scan pairs them like that, with all
brackets closed in the end (`paired_of_scanned`), and there is only one such pairing
(`Paired.unique`).
-/

set_option autoImplicit false
set_option relaxedAutoImplicit false

namespace ClassWeaver.Factory

open ClassFile Code

/-! ### Pairings -/

section

variable (pool : ConstantPool) (product : String) (instructions : List Instruction)

def AllocatesAt (index : Nat) : Prop :=
  ∃ instruction, instructions[index]? = some instruction ∧
    allocates pool product instruction = .ok true

def ConstructsAt (index : Nat) : Prop :=
  ∃ instruction descriptor, instructions[index]? = some instruction ∧
    constructs? pool product instruction = .ok (some descriptor)

/-- The instructions of a construction that are replaced. -/
def Construction.indices (construction : Construction) : List Nat :=
  [construction.allocation, construction.allocation + 1, construction.call]

/-- Constructions that pair allocations and constructor calls as brackets are paired. -/
structure Paired (found : List Construction) : Prop where
  /-- Each has a `new`, a `dup` behind it and a constructor call further behind. -/
  completed : ∀ construction ∈ found, Completed pool product instructions construction
  /-- All allocations are part of one. -/
  closed : ∀ index, AllocatesAt pool product instructions index →
    ∃ construction ∈ found, construction.allocation = index
  /-- All allocations in between are completed before. -/
  latest : ∀ construction ∈ found, ∀ index, construction.allocation < index →
    index < construction.call → AllocatesAt pool product instructions index →
      ∃ other ∈ found, other.allocation = index ∧ other.call < construction.call
  /-- Of a constructor call that is part of none, all allocations in front are completed before. -/
  ignored : ∀ call, ConstructsAt pool product instructions call →
    (∃ construction ∈ found, construction.call = call) ∨
      ∀ index, index < call → AllocatesAt pool product instructions index →
        ∃ construction ∈ found, construction.allocation = index ∧ construction.call < call
  /-- No instruction is part of two, or two parts of one. -/
  distinct : (found.flatMap Construction.indices).Nodup

end

variable {pool : ConstantPool} {product : String} {instructions : List Instruction}

/-! ### What a scan pairs -/

section

variable (pool product instructions)

/-- An allocation that is open at an instruction, or comes from there on. -/
def Pending (opened : List Allocation) (start index : Nat) : Prop :=
  index ∈ opened.map Allocation.index ∨
    start ≤ index ∧ AllocatesAt pool product instructions index

/-- What a scan from an instruction on pairs: the allocations that are pending there. -/
structure Pairs (opened : List Allocation) (start : Nat) (found : List Construction) : Prop where
  pending : ∀ construction ∈ found,
    Pending pool product instructions opened start construction.allocation
  bound : ∀ construction ∈ found, start ≤ construction.call
  latest : ∀ construction ∈ found, ∀ index, construction.allocation < index →
    index < construction.call → Pending pool product instructions opened start index →
      ∃ other ∈ found, other.allocation = index ∧ other.call < construction.call
  ignored : ∀ call, start ≤ call → ConstructsAt pool product instructions call →
    (∃ construction ∈ found, construction.call = call) ∨
      ∀ index, index < call → Pending pool product instructions opened start index →
        ∃ construction ∈ found, construction.allocation = index ∧ construction.call < call
  distinct : found.Pairwise fun first second ↦
    first.allocation ≠ second.allocation ∧ first.call ≠ second.call

end

section Steps

variable {opened others : List Allocation} {latest : Allocation} {start index offset : Nat}
  {found : List Construction}

theorem pending_opening (h : AllocatesAt pool product instructions start) :
    Pending pool product instructions (⟨start, offset⟩ :: opened) (start + 1) index ↔
      Pending pool product instructions opened start index := by
  rw [Pending, Pending, List.map_cons, List.mem_cons, Nat.succ_le_iff, Nat.le_iff_lt_or_eq]
  constructor
  · rintro ((rfl | hmem) | ⟨hlt, hallocates⟩)
    · exact .inr ⟨.inr rfl, h⟩
    · exact .inl hmem
    · exact .inr ⟨.inl hlt, hallocates⟩
  · rintro (hmem | ⟨hlt | rfl, hallocates⟩)
    · exact .inl (.inr hmem)
    · exact .inr ⟨hlt, hallocates⟩
    · exact .inl (.inl rfl)

theorem pending_passing (h : ¬ AllocatesAt pool product instructions start) :
    Pending pool product instructions opened (start + 1) index ↔
      Pending pool product instructions opened start index := by
  refine or_congr_right (and_congr_left fun hallocates ↦ ?_)
  rw [Nat.succ_le_iff, Nat.lt_iff_le_and_ne]
  refine and_iff_left ?_
  rintro rfl
  exact h hallocates

theorem pending_completing (h : ¬ AllocatesAt pool product instructions start) :
    Pending pool product instructions (latest :: others) start index ↔
      index = latest.index ∨ Pending pool product instructions others (start + 1) index := by
  rw [pending_passing h, Pending, Pending, List.map_cons, List.mem_cons, or_assoc]

theorem Pairs.opening
    (h : Pairs pool product instructions (⟨start, offset⟩ :: opened) (start + 1) found)
    (hhere : AllocatesAt pool product instructions start)
    (hother : ¬ ConstructsAt pool product instructions start) :
    Pairs pool product instructions opened start found where
  pending construction hfound := (pending_opening hhere).mp (h.pending construction hfound)
  bound construction hfound := Nat.le_of_succ_le (h.bound construction hfound)
  latest construction hfound index hafter hbefore hpending :=
    h.latest construction hfound index hafter hbefore ((pending_opening hhere).mpr hpending)
  ignored call hcall hconstructs := by
    rcases Nat.eq_or_lt_of_le hcall with rfl | hlt
    · exact absurd hconstructs hother
    · exact (h.ignored call hlt hconstructs).imp_right fun hdone index hindex hpending ↦
        hdone index hindex ((pending_opening hhere).mpr hpending)
  distinct := h.distinct

theorem Pairs.passing (h : Pairs pool product instructions opened (start + 1) found)
    (hhere : ¬ AllocatesAt pool product instructions start)
    (hother : opened = [] ∨ ¬ ConstructsAt pool product instructions start) :
    Pairs pool product instructions opened start found where
  pending construction hfound := (pending_passing hhere).mp (h.pending construction hfound)
  bound construction hfound := Nat.le_of_succ_le (h.bound construction hfound)
  latest construction hfound index hafter hbefore hpending :=
    h.latest construction hfound index hafter hbefore ((pending_passing hhere).mpr hpending)
  ignored call hcall hconstructs := by
    rcases Nat.eq_or_lt_of_le hcall with rfl | hlt
    · rcases hother with rfl | hnone
      · -- With nothing open, nothing in front is pending.
        refine .inr fun index hindex hpending ↦ ?_
        rcases hpending with hmem | ⟨hle, -⟩
        · cases hmem
        · exact absurd hindex (Nat.not_lt.mpr hle)
      · exact absurd hconstructs hnone
    · exact (h.ignored call hlt hconstructs).imp_right fun hdone index hindex hpending ↦
        hdone index hindex ((pending_passing hhere).mpr hpending)
  distinct := h.distinct

theorem Pairs.completing {descriptor : String}
    (h : Pairs pool product instructions others (start + 1) found)
    (hhere : ¬ AllocatesAt pool product instructions start)
    (hsorted : (start :: (latest :: others).map Allocation.index).Pairwise (· > ·)) :
    Pairs pool product instructions (latest :: others) start
      (⟨latest.index, start, descriptor⟩ :: found) := by
  obtain ⟨hstart, hrest⟩ := List.pairwise_cons.mp hsorted
  have hopen : latest.index < start := hstart latest.index (List.mem_cons_self ..)
  have hothers := (List.pairwise_cons.mp hrest).1
  have hnotBetween {index : Nat}
      (hpending : Pending pool product instructions others (start + 1) index) :
      index < latest.index ∨ start < index :=
    hpending.imp (hothers index) And.left
  refine ⟨List.forall_mem_cons.mpr ⟨(pending_completing hhere).mpr (.inl rfl), ?_⟩,
    List.forall_mem_cons.mpr ⟨Nat.le_refl _, ?_⟩, List.forall_mem_cons.mpr ⟨?_, ?_⟩, ?_,
    List.pairwise_cons.mpr ⟨?_, h.distinct⟩⟩
  · exact fun construction hfound ↦
      (pending_completing hhere).mpr (.inr (h.pending construction hfound))
  · exact fun construction hfound ↦ Nat.le_of_succ_le (h.bound construction hfound)
  · intro index hafter hbefore hpending
    dsimp only at hafter hbefore
    rcases (pending_completing hhere).mp hpending with rfl | hother
    · exact absurd hafter (Nat.lt_irrefl _)
    · rcases hnotBetween hother with hlt | hlt
      · exact absurd hafter (Nat.lt_asymm hlt)
      · exact absurd hbefore (Nat.lt_asymm hlt)
  · intro construction hfound index hafter hbefore hpending
    rcases (pending_completing hhere).mp hpending with rfl | hother
    · exact ⟨_, List.mem_cons_self .., rfl, h.bound construction hfound⟩
    · obtain ⟨other, hmem, hindex, hcall⟩ :=
        h.latest construction hfound index hafter hbefore hother
      exact ⟨other, List.mem_cons_of_mem _ hmem, hindex, hcall⟩
  · intro call hcall hconstructs
    rcases Nat.eq_or_lt_of_le hcall with rfl | hlt
    · exact .inl ⟨_, List.mem_cons_self .., rfl⟩
    rcases h.ignored call hlt hconstructs with ⟨construction, hfound, hsame⟩ | hdone
    · exact .inl ⟨construction, List.mem_cons_of_mem _ hfound, hsame⟩
    refine .inr fun index hindex hpending ↦ ?_
    rcases (pending_completing hhere).mp hpending with rfl | hother
    · exact ⟨_, List.mem_cons_self .., rfl, hlt⟩
    · obtain ⟨construction, hfound, hsame, hbefore⟩ := hdone index hindex hother
      exact ⟨construction, List.mem_cons_of_mem _ hfound, hsame, hbefore⟩
  · intro construction hfound
    refine ⟨fun hsame ↦ ?_, Nat.ne_of_lt (h.bound construction hfound)⟩
    dsimp only at hsame
    rcases hnotBetween (h.pending construction hfound) with hlt | hlt
    · exact absurd hsame.symm (Nat.ne_of_lt hlt)
    · exact absurd hsame (Nat.ne_of_lt (Nat.lt_trans hopen hlt))

end Steps

/-- An instruction has one opcode. -/
theorem not_constructsAt_of_allocatesAt {index : Nat}
    (h : AllocatesAt pool product instructions index) :
    ¬ ConstructsAt pool product instructions index := by
  obtain ⟨instruction, hinstruction, hallocates⟩ := h
  rintro ⟨other, descriptor, hother, hconstructs⟩
  obtain rfl := Option.some.inj (hinstruction.symm.trans hother)
  have hopcode := (constructs?_eq_some hconstructs).1
  rw [opcode_of_allocates hallocates] at hopcode
  exact absurd hopcode (by decide)

theorem not_allocatesAt {index : Nat} {instruction : Instruction}
    (hinstruction : instructions[index]? = some instruction)
    (h : allocates pool product instruction = .ok false) :
    ¬ AllocatesAt pool product instructions index := by
  rintro ⟨other, hother, hallocates⟩
  obtain rfl := Option.some.inj (hinstruction.symm.trans hother)
  cases h.symm.trans hallocates

theorem not_constructsAt {index : Nat} {instruction : Instruction}
    (hinstruction : instructions[index]? = some instruction)
    (h : constructs? pool product instruction = .ok none) :
    ¬ ConstructsAt pool product instructions index := by
  rintro ⟨other, descriptor, hother, hconstructs⟩
  obtain rfl := Option.some.inj (hinstruction.symm.trans hother)
  cases h.symm.trans hconstructs

theorem pairwise_succ_cons {start : Nat} {indices : List Nat}
    (h : (start :: indices).Pairwise (· > ·)) : ((start + 1) :: indices).Pairwise (· > ·) := by
  obtain ⟨hbelow, hrest⟩ := List.pairwise_cons.mp h
  exact List.pairwise_cons.mpr ⟨fun index hindex ↦ Nat.lt_succ_of_lt (hbelow index hindex), hrest⟩

theorem pairs_of_scanned {opened : List Allocation} {start : Nat} {found : List Construction}
    (h : Scanned pool product instructions opened start found)
    (hsorted : (start :: opened.map Allocation.index).Pairwise (· > ·)) :
    Pairs pool product instructions opened start found := by
  induction h with
  | stop hstop =>
    refine ⟨nofun, nofun, nofun, fun call hcall hconstructs ↦ ?_, .nil⟩
    obtain ⟨instruction, -, hinstruction, -⟩ := hconstructs
    rw [List.getElem?_eq_none (Nat.le_trans hstop hcall)] at hinstruction
    cases hinstruction
  | @opening opened start offset _ instruction next hhere hallocates hnext hcopy _ ih =>
    have hnew : AllocatesAt pool product instructions start := ⟨instruction, hhere, hallocates⟩
    have hlater := pairwise_succ_cons hsorted
    refine (ih ?_).opening hnew (not_constructsAt_of_allocatesAt hnew)
    exact List.pairwise_cons.mpr ⟨List.forall_mem_cons.mpr
      ⟨Nat.lt_succ_self start, (List.pairwise_cons.mp hlater).1⟩, hsorted⟩
  | passing hhere hallocates hother _ ih =>
    exact (ih (pairwise_succ_cons hsorted)).passing (not_allocatesAt hhere hallocates)
      (hother.imp_right (not_constructsAt hhere))
  | completing hhere hallocates hcalled _ ih =>
    refine (ih ?_).completing (not_allocatesAt hhere hallocates) hsorted
    exact pairwise_succ_cons (hsorted.sublist (.cons_cons _ (List.sublist_cons_self _ _)))

/-! ### Pairings that a scan finds -/

section Found

variable {found : List Construction}

/-- The instructions of a construction have different opcodes. -/
theorem Completed.opcodes {construction : Construction}
    (h : Completed pool product instructions construction) :
    (∃ instruction, instructions[construction.allocation]? = some instruction ∧
      instruction.opcode = .new) ∧
    (∃ instruction, instructions[construction.allocation + 1]? = some instruction ∧
      instruction.opcode = .dup) ∧
    ∃ instruction, instructions[construction.call]? = some instruction ∧
      instruction.opcode = .invokespecial := by
  obtain ⟨⟨⟨new, hnew, hallocates⟩, hcopy⟩, ⟨called, hcalled, hconstructs⟩, -⟩ := h
  exact ⟨⟨new, hnew, opcode_of_allocates hallocates⟩, hcopy, called, hcalled,
    (constructs?_eq_some hconstructs).1⟩

/-- Instructions with different opcodes are different. -/
theorem index_ne_of_opcode {first second : Nat} {one other : Opcode} (hne : one ≠ other)
    (hfirst : ∃ instruction, instructions[first]? = some instruction ∧ instruction.opcode = one)
    (hsecond : ∃ instruction, instructions[second]? = some instruction ∧
      instruction.opcode = other) : first ≠ second := by
  rintro rfl
  obtain ⟨before, hbefore, rfl⟩ := hfirst
  obtain ⟨behind, hbehind, rfl⟩ := hsecond
  rw [hbefore] at hbehind
  cases hbehind
  exact hne rfl

theorem nodup_indices
    (hcompleted : ∀ construction ∈ found, Completed pool product instructions construction)
    (hdistinct : found.Pairwise fun first second ↦
      first.allocation ≠ second.allocation ∧ first.call ≠ second.call) :
    (found.flatMap Construction.indices).Nodup := by
  refine List.nodup_flatMap.mpr ⟨fun construction hfound ↦ ?_, ?_⟩
  · obtain ⟨hnew, hdup, hcall⟩ := (hcompleted construction hfound).opcodes
    have hfirst := index_ne_of_opcode (by decide) hnew hcall
    have hsecond := index_ne_of_opcode (by decide) hdup hcall
    simp [Construction.indices, hfirst, hsecond]
  · refine hdistinct.imp_of_mem fun {first second} hfirst hsecond hdiffer index hone hother ↦ ?_
    obtain ⟨hnew, hdup, hcall⟩ := (hcompleted first hfirst).opcodes
    obtain ⟨hnewOther, hdupOther, hcallOther⟩ := (hcompleted second hsecond).opcodes
    simp only [Construction.indices, List.mem_cons, List.not_mem_nil, or_false] at hone hother
    rcases hone with rfl | rfl | rfl
    · rcases hother with hsame | hsame | hsame
      · exact hdiffer.1 hsame
      · exact index_ne_of_opcode (by decide) hnew hdupOther hsame
      · exact index_ne_of_opcode (by decide) hnew hcallOther hsame
    · rcases hother with hsame | hsame | hsame
      · exact index_ne_of_opcode (by decide) hdup hnewOther hsame
      · exact hdiffer.1 (Nat.succ.inj hsame)
      · exact index_ne_of_opcode (by decide) hdup hcallOther hsame
    · rcases hother with hsame | hsame | hsame
      · exact index_ne_of_opcode (by decide) hcall hnewOther hsame
      · exact index_ne_of_opcode (by decide) hcall hdupOther hsame
      · exact hdiffer.2 hsame

theorem paired_of_scanned (h : Scanned pool product instructions [] 0 found) :
    Paired pool product instructions found := by
  have hfinds := finds_of_scanned h nofun
  have hpairs := pairs_of_scanned h (List.pairwise_singleton _ _)
  have hpending {index : Nat} (hallocates : AllocatesAt pool product instructions index) :
      Pending pool product instructions [] 0 index := .inr ⟨Nat.zero_le _, hallocates⟩
  refine ⟨hfinds.completed, ?_, ?_, ?_, nodup_indices hfinds.completed hpairs.distinct⟩
  · rintro index ⟨instruction, hinstruction, hallocates⟩
    exact hfinds.later index instruction (Nat.zero_le _) hinstruction hallocates
  · exact fun construction hfound index hafter hbefore hallocates ↦
      hpairs.latest construction hfound index hafter hbefore (hpending hallocates)
  · exact fun call hconstructs ↦ (hpairs.ignored call (Nat.zero_le _) hconstructs).imp_right
      fun hdone index hindex hallocates ↦ hdone index hindex (hpending hallocates)

end Found

/-! ### There is only one pairing -/

namespace Paired

variable {found other : List Construction} {first second : Construction}

theorem eq_of_allocation (h : Paired pool product instructions found) (hfirst : first ∈ found)
    (hsecond : second ∈ found) (hsame : first.allocation = second.allocation) :
    first = second := by
  by_contra hne
  have hsymm : Std.Symm (Function.onFun List.Disjoint Construction.indices) :=
    ⟨fun _ _ hdisjoint _ hone hanother ↦ hdisjoint hanother hone⟩
  have hparts := (List.nodup_flatMap.mp h.distinct).2.forall hfirst hsecond hne
  exact hparts (List.mem_cons_self ..) (hsame ▸ List.mem_cons_self ..)

theorem allocatesAt (h : Paired pool product instructions found) (hfound : first ∈ found) :
    AllocatesAt pool product instructions first.allocation :=
  (h.completed first hfound).opens.allocation

/-- The call that completes a construction completes the same one in another pairing, if the two
agree on all calls before. -/
theorem mem_of_agree (h : Paired pool product instructions found)
    (hother : Paired pool product instructions other)
    (hagree : ∀ construction, construction.call < first.call →
      (construction ∈ found ↔ construction ∈ other)) (hfirst : first ∈ found) : first ∈ other := by
  obtain ⟨-, ⟨instruction, hcall, hconstructs⟩, horder⟩ := h.completed first hfirst
  -- What the other pairing has completed before cannot be completed by this call.
  have hopen {construction : Construction} (hmem : construction ∈ other)
      (hsame : construction.allocation = first.allocation) :
      ¬ construction.call < first.call := by
    intro hbefore
    obtain rfl := h.eq_of_allocation ((hagree construction hbefore).mpr hmem) hfirst hsame
    exact Nat.lt_irrefl _ hbefore
  rcases hother.ignored first.call ⟨instruction, _, hcall, hconstructs⟩ with
    ⟨second, hsecond, hsame⟩ | hdone
  · obtain ⟨-, ⟨called, hcalled, hconstructsOther⟩, horderOther⟩ := hother.completed second hsecond
    rcases Nat.lt_trichotomy first.allocation second.allocation with hlt | hallocation | hlt
    · obtain ⟨third, hthird, hthirdSame, hbefore⟩ := h.latest first hfirst second.allocation hlt
        (hsame ▸ horderOther) (hother.allocatesAt hsecond)
      obtain rfl := hother.eq_of_allocation ((hagree third hbefore).mp hthird) hsecond hthirdSame
      exact absurd hbefore (hsame ▸ Nat.lt_irrefl _)
    · rw [hsame] at hcalled
      obtain rfl := Option.some.inj (hcall.symm.trans hcalled)
      have hdescriptor := Option.some.inj (Except.ok.inj (hconstructs.symm.trans hconstructsOther))
      obtain rfl : first = second := by
        obtain ⟨_, _, _⟩ := first
        obtain ⟨_, _, _⟩ := second
        cases hsame
        cases hallocation
        cases hdescriptor
        rfl
      exact hsecond
    · obtain ⟨third, hthird, hthirdSame, hbefore⟩ := hother.latest second hsecond first.allocation
        hlt (hsame ▸ horder) (h.allocatesAt hfirst)
      exact absurd (hsame ▸ hbefore) (hopen hthird hthirdSame)
  · obtain ⟨third, hthird, hthirdSame, hbefore⟩ :=
      hdone first.allocation horder (h.allocatesAt hfirst)
    exact absurd hbefore (hopen hthird hthirdSame)

/-- Brackets can be paired in one way only. -/
theorem unique (h : Paired pool product instructions found)
    (hother : Paired pool product instructions other) (construction : Construction) :
    construction ∈ found ↔ construction ∈ other := by
  induction hcall : construction.call using Nat.strongRecOn generalizing construction with
  | ind call ih =>
    subst hcall
    have hagree (before : Construction) (hlt : before.call < construction.call) :
        before ∈ found ↔ before ∈ other := ih before.call hlt before rfl
    exact ⟨h.mem_of_agree hother hagree,
      hother.mem_of_agree h fun before hlt ↦ (hagree before hlt).symm⟩

end Paired

end ClassWeaver.Factory
