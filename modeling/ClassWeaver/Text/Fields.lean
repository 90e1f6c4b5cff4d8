/-!
Cutting a text at a separator.

`fields` cuts at every separator, `cutFirst` at the first one and `cutLast` at the last one.
Joining the pieces with the separator gives the text back.
-/

set_option autoImplicit false
set_option relaxedAutoImplicit false

namespace ClassWeaver.Text

/-- The pieces between the separators; a text without a separator is one piece. -/
def fields (separator : Char) : List Char → List (List Char)
  | [] => [[]]
  | c :: rest =>
    if c = separator then [] :: fields separator rest
    else
      match fields separator rest with
      | [] => [[c]]
      | piece :: pieces => (c :: piece) :: pieces

/-- What stands before and after the first separator. -/
def cutFirst (separator : Char) : List Char → Option (List Char × List Char)
  | [] => none
  | c :: rest =>
    if c = separator then some ([], rest)
    else (cutFirst separator rest).map fun (before, after) ↦ (c :: before, after)

/-- What stands before and after the last separator. -/
def cutLast (separator : Char) (text : List Char) : Option (List Char × List Char) :=
  (cutFirst separator text.reverse).map fun (after, before) ↦ (before.reverse, after.reverse)

theorem fields_ne_nil (separator : Char) (text : List Char) : fields separator text ≠ [] := by
  cases text with
  | nil => simp [fields]
  | cons c rest =>
    simp only [fields]
    split
    · simp
    · split <;> simp

theorem cutFirst_eq_some (separator : Char) {text before after : List Char}
    (h : cutFirst separator text = some (before, after)) :
    text = before ++ separator :: after ∧ separator ∉ before := by
  induction text generalizing before with
  | nil => simp [cutFirst] at h
  | cons c rest ih =>
    simp only [cutFirst] at h
    split at h
    · rename_i hc
      simp only [Option.some.injEq, Prod.mk.injEq] at h
      obtain ⟨rfl, rfl⟩ := h
      simp [hc]
    · rename_i hc
      obtain ⟨⟨before', after'⟩, hcut, heq⟩ := Option.map_eq_some_iff.1 h
      simp only [Prod.mk.injEq] at heq
      obtain ⟨rfl, rfl⟩ := heq
      obtain ⟨rfl, hmem⟩ := ih hcut
      exact ⟨rfl, by simp [hmem, Ne.symm hc]⟩

end ClassWeaver.Text
