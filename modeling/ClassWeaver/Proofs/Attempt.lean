import ClassWeaver.Attempt
import Mathlib.Data.List.Forall2

/-!
What it means that a series of steps succeeded: every single step did.

`forall₂_of_mapM_eq_ok` and `forM_eq_ok` open a loop that may fail, and `each_failure_eq_none` one
that keeps what it has done so far.
-/

set_option autoImplicit false
set_option relaxedAutoImplicit false

namespace ClassWeaver

variable {ε α β : Type}

/-! ### Loops that may fail -/

theorem except_bind_eq_ok {first : Except ε α} {next : α → Except ε β} {result : β} :
    first >>= next = .ok result ↔ ∃ value, first = .ok value ∧ next value = .ok result := by
  cases first with
  | error fault => simp [bind, Except.bind]
  | ok value => simp [bind, Except.bind]

/-- One of the parts of a sequence that failed did. -/
theorem except_bind_eq_error {first : Except ε α} {next : α → Except ε β} {fault : ε}
    (h : first >>= next = .error fault) :
    first = .error fault ∨ ∃ value, first = .ok value ∧ next value = .error fault := by
  cases first with
  | error cause =>
    obtain rfl : cause = fault := Except.error.inj h
    exact .inl rfl
  | ok value => exact .inr ⟨value, rfl, h⟩

theorem forall₂_of_mapM_eq_ok {step : α → Except ε β} {items : List α} {results : List β}
    (h : items.mapM step = .ok results) :
    List.Forall₂ (fun item result ↦ step item = .ok result) items results := by
  induction items generalizing results with
  | nil =>
    cases h
    exact .nil
  | cons item rest ih =>
    rw [List.mapM_cons] at h
    obtain ⟨first, hfirst, h⟩ := except_bind_eq_ok.mp h
    obtain ⟨others, hothers, h⟩ := except_bind_eq_ok.mp h
    cases h
    exact .cons hfirst (ih hothers)

theorem exists_of_forall₂ {relation : α → β → Prop} {items : List α} {results : List β}
    (h : List.Forall₂ relation items results) {result : β} (hmem : result ∈ results) :
    ∃ item ∈ items, relation item result := by
  induction h with
  | nil => cases hmem
  | cons hfirst _ ih =>
    rcases List.mem_cons.mp hmem with rfl | hrest
    · exact ⟨_, List.mem_cons_self .., hfirst⟩
    · obtain ⟨item, hitem, hrelation⟩ := ih hrest
      exact ⟨item, List.mem_cons_of_mem _ hitem, hrelation⟩

theorem forM_eq_ok {step : α → Except ε Unit} {items : List α} :
    items.forM step = .ok () ↔ ∀ item ∈ items, step item = .ok () := by
  induction items with
  | nil => exact ⟨fun _ _ h ↦ absurd h List.not_mem_nil, fun _ ↦ rfl⟩
  | cons item rest ih =>
    change Except.bind (step item) (fun _ ↦ rest.forM step) = _ ↔ _
    rw [List.forall_mem_cons]
    cases hitem : step item with
    | error fault => simp [Except.bind]
    | ok answer => simpa [Except.bind] using ih

/-- Changes of a state that may fail, one after the other: the second is made unless the first has
failed. -/
theorem edit_bind_run {σ : Type} (first : ExceptT ε (StateT σ Id) α)
    (next : α → ExceptT ε (StateT σ Id) β) (before : σ) :
    (first >>= next).run.run before = match first.run.run before with
      | (.ok value, between) => (next value).run.run between
      | (.error fault, between) => (.error fault, between) := by
  rw [ExceptT.run_bind, StateT.run_bind]
  change (match first.run.run before with | (outcome, between) => _) = _
  generalize first.run.run before = ended
  obtain ⟨outcome, between⟩ := ended
  cases outcome with
  | error fault => rfl
  | ok value => rfl

/-- A handler goes on from where the change has failed. -/
theorem edit_tryCatch_run {σ : Type} (first : ExceptT ε (StateT σ Id) α)
    (handler : ε → ExceptT ε (StateT σ Id) α) (before : σ) :
    (tryCatch first handler).run.run before = match first.run.run before with
      | (.ok value, between) => (.ok value, between)
      | (.error fault, between) => (handler fault).run.run between := by
  rw [ExceptT.run_tryCatch, StateT.run_bind]
  change (match first.run.run before with | (outcome, between) => _) = _
  generalize first.run.run before = ended
  obtain ⟨outcome, between⟩ := ended
  cases outcome with
  | error fault => rfl
  | ok value => rfl

/-- Both parts of a sequence that succeeded did. -/
theorem edit_bind_eq_ok {σ : Type} {first : ExceptT ε (StateT σ Id) α}
    {next : α → ExceptT ε (StateT σ Id) β} {before after : σ} {result : β} :
    (first >>= next).run.run before = (.ok result, after) ↔
      ∃ value between, first.run.run before = (.ok value, between) ∧
        (next value).run.run between = (.ok result, after) := by
  rw [edit_bind_run]
  generalize first.run.run before = ended
  obtain ⟨outcome, between⟩ := ended
  cases outcome with
  | error fault =>
    constructor
    · intro h
      cases h
    · rintro ⟨value, middle, h, -⟩
      cases h
  | ok value =>
    constructor
    · exact fun h ↦ ⟨value, between, rfl, h⟩
    · rintro ⟨value, middle, h, hnext⟩
      cases h
      exact hnext

/-! ### Attempts that were not stopped -/

namespace Attempt

theorem update_failure_eq_none {value : α} {part : Except ε β} {put : β → α}
    (h : (update value part put).failure = none) :
    ∃ result, part = .ok result ∧ (update value part put).value = put result := by
  cases part with
  | error fault => cases h
  | ok result => exact ⟨result, rfl, rfl⟩

/-- An attempt in two parts was stopped in neither of them. -/
theorem andThen_failure_eq_none {attempt : Attempt ε α} {next : α → Attempt ε α}
    (h : (attempt.andThen next).failure = none) :
    attempt.failure = none ∧ attempt.andThen next = next attempt.value := by
  unfold andThen at h ⊢
  cases hfailure : attempt.failure with
  | some fault =>
    rw [hfailure] at h
    cases hfailure.symm.trans h
  | none => exact ⟨rfl, rfl⟩

theorem andThen_assoc (attempt : Attempt ε α) (first second : α → Attempt ε α) :
    (attempt.andThen first).andThen second =
      attempt.andThen fun value ↦ (first value).andThen second := by
  obtain ⟨value, failure⟩ := attempt
  cases failure <;> rfl

/-- Once a part was put into the value, what is left is to go on from there. -/
theorem update_andThen_failure_eq_none {value : α} {part : Except ε β} {put : β → α}
    {next : α → Attempt ε α} (h : ((update value part put).andThen next).failure = none) :
    ∃ result, part = .ok result ∧ (update value part put).andThen next = next (put result) := by
  obtain ⟨hupdate, hnext⟩ := andThen_failure_eq_none h
  obtain ⟨result, hpart, hvalue⟩ := update_failure_eq_none hupdate
  exact ⟨result, hpart, hvalue ▸ hnext⟩

theorem each_failure_eq_none {change : α → Attempt ε α} {items : List α}
    (h : (each change items).failure = none) :
    List.Forall₂ (fun item result ↦ (change item).failure = none ∧ (change item).value = result)
      items (each change items).value := by
  induction items with
  | nil => exact .nil
  | cons item rest ih =>
    unfold each at h ⊢
    cases hfailure : (change item).failure with
    | some fault =>
      simp only [hfailure] at h
      cases h
    | none =>
      simp only [hfailure] at h ⊢
      exact .cons ⟨hfailure, rfl⟩ (ih h)

end Attempt

end ClassWeaver
