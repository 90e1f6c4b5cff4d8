import ClassWeaver.Descriptor

/-!
Method descriptors that are taken apart and put together again.

The parameters of a descriptor can be put in front of any other result: the descriptor that comes
of it has the same parameters.
-/

set_option autoImplicit false
set_option relaxedAutoImplicit false

namespace ClassWeaver

theorem Text.cutFirst_append {separator : Char} {before : List Char} (after : List Char)
    (h : separator ∉ before) :
    cutFirst separator (before ++ separator :: after) = some (before, after) := by
  induction before with
  | nil => simp [cutFirst]
  | cons c rest ih =>
    rw [List.mem_cons, not_or] at h
    rw [List.cons_append, cutFirst, if_neg (Ne.symm h.1), ih h.2]
    rfl

namespace Descriptor

theorem flatten_of_parameters {list : List Char} {types : List (List Char)}
    (h : parameters list = some types) : types.flatten = list := by
  induction list using parameters.induct generalizing types with
  | case1 =>
    rw [parameters, if_pos rfl] at h
    cases h
    rfl
  | case2 list hne hfirst =>
    rw [parameters, if_neg hne] at h
    split at h
    · cases h
    · rename_i hsome
      rw [hfirst] at hsome
      cases hsome
  | case3 list hne first rest hfirst hlt ih =>
    rw [parameters, if_neg hne] at h
    split at h
    · cases h
    · rename_i hsome
      rw [hfirst] at hsome
      cases hsome
      obtain ⟨others, hothers, rfl⟩ := Option.map_eq_some_iff.mp h
      rw [List.flatten_cons, ih hothers]
      exact (firstParameter_eq_some hfirst).1.symm

theorem split_eq_some {descriptor result : String} {types : List String} :
    split descriptor = some (types, result) ↔ ∃ list parts, result ≠ "" ∧ ')' ∉ list ∧
      parameters list = some parts ∧ types = parts.map String.ofList ∧
        descriptor.toList = '(' :: (list ++ ')' :: result.toList) := by
  constructor
  · intro h
    rw [split] at h
    split at h
    · rename_i inner hinner
      obtain ⟨⟨list, rest⟩, hcut, hparsed⟩ := Option.bind_eq_some_iff.mp h
      obtain ⟨rfl, hlist⟩ := Text.cutFirst_eq_some ')' hcut
      dsimp only at hparsed
      split at hparsed
      · cases hparsed
      · rename_i hrest
        obtain ⟨parts, hparts, hpure⟩ := Option.bind_eq_some_iff.mp hparsed
        cases hpure
        exact ⟨list, parts, by simpa using hrest, hlist, hparts, rfl, by simpa using hinner⟩
    · cases h
  · rintro ⟨list, parts, hresult, hlist, hparts, rfl, hdescriptor⟩
    have hcut : Text.cutFirst ')' (list ++ ')' :: result.toList) = some (list, result.toList) :=
      Text.cutFirst_append _ hlist
    simp [split, hdescriptor, hcut, hparts, hresult]

/-- The parameters stay those of the descriptor when it gets another result. -/
theorem split_join {descriptor result new : String} {types : List String}
    (h : split descriptor = some (types, result)) (hnew : new ≠ "") :
    split (join types new) = some (types, new) := by
  obtain ⟨list, parts, -, hlist, hparts, rfl, -⟩ := split_eq_some.mp h
  refine split_eq_some.mpr ⟨list, parts, hnew, hlist, hparts, rfl, ?_⟩
  have htypes : (parts.map String.ofList).flatMap String.toList = list := by
    rw [List.flatMap_map, ← flatten_of_parameters hparts, List.flatMap_def]
    simp
  simp [join, htypes]

end Descriptor

end ClassWeaver
