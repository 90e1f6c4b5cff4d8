import ClassWeaver.Text.Fields

/-!
Method descriptors, such as `(I[J)V`.

`split` takes one apart into its parameters and its result. A parameter is a run of array
brackets and then a primitive letter, or a class name between `L` and `;`. The parameter list
ends at the first closing parenthesis, and the result is any text that is not empty.
-/

set_option autoImplicit false
set_option relaxedAutoImplicit false

namespace ClassWeaver.Descriptor

/-- The letters of the primitive parameter types. -/
def isPrimitive (c : Char) : Bool :=
  "BCDFIJSZ".toList.contains c

/-- The first parameter of a parameter list, and the list behind it. -/
def firstParameter : List Char → Option (List Char × List Char)
  | [] => none
  | c :: rest =>
    if c = '[' then (firstParameter rest).map fun (type, rest) ↦ (c :: type, rest)
    else if c = 'L' then
      (Text.cutFirst ';' rest).map fun (name, rest) ↦ (c :: name ++ [';'], rest)
    else if isPrimitive c then some ([c], rest)
    else none

theorem firstParameter_eq_some {list type rest : List Char}
    (h : firstParameter list = some (type, rest)) : list = type ++ rest ∧ type ≠ [] := by
  induction list generalizing type with
  | nil => simp [firstParameter] at h
  | cons c list ih =>
    simp only [firstParameter] at h
    split at h
    · obtain ⟨⟨type', rest'⟩, hfirst, heq⟩ := Option.map_eq_some_iff.1 h
      simp only [Prod.mk.injEq] at heq
      obtain ⟨rfl, rfl⟩ := heq
      obtain ⟨rfl, -⟩ := ih hfirst
      simp
    · split at h
      · obtain ⟨⟨name, rest'⟩, hcut, heq⟩ := Option.map_eq_some_iff.1 h
        simp only [Prod.mk.injEq] at heq
        obtain ⟨rfl, rfl⟩ := heq
        obtain ⟨rfl, -⟩ := Text.cutFirst_eq_some _ hcut
        simp
      · split at h
        · simp only [Option.some.injEq, Prod.mk.injEq] at h
          obtain ⟨rfl, rfl⟩ := h
          simp
        · simp at h

/-- All parameters of a parameter list. -/
def parameters (list : List Char) : Option (List (List Char)) :=
  if list = [] then some []
  else
    match h : firstParameter list with
    | none => none
    | some (type, rest) =>
      have : rest.length < list.length := by
        obtain ⟨rfl, hne⟩ := firstParameter_eq_some h
        have := List.length_pos_iff.2 hne
        simp
        omega
      (parameters rest).map (type :: ·)
termination_by list.length

/-- The parameters and the result of a method descriptor. -/
def split (descriptor : String) : Option (List String × String) :=
  match descriptor.toList with
  | '(' :: inner => do
    let (list, result) ← Text.cutFirst ')' inner
    if result = [] then none
    let types ← parameters list
    return (types.map String.ofList, String.ofList result)
  | _ => none

/-- The descriptor with the given parameters and result. -/
def join (parameters : List String) (result : String) : String :=
  "(" ++ String.join parameters ++ ")" ++ result

end ClassWeaver.Descriptor
