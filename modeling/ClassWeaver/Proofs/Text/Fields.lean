import ClassWeaver.Text.Blank
import ClassWeaver.Text.Fields
import Mathlib.Data.List.TakeWhile

/-!
Cutting and trimming texts that were put together.

A text that was put together with a separator is cut where it was put together
(`fields_append_cons`). Blanks at its ends are trimmed off, and nothing else is lost by that
(`eq_append_trim`). Trimming therefore does not change where a text is cut.
-/

set_option autoImplicit false
set_option relaxedAutoImplicit false

namespace ClassWeaver.Text

variable {separator c : Char} {left right text : List Char}

/-! ### Pieces between separators -/

theorem fields_of_not_mem (h : separator ∉ text) : fields separator text = [text] := by
  induction text with
  | nil => rfl
  | cons c rest ih =>
    have hc : ¬ c = separator := fun heq ↦ h (heq ▸ List.mem_cons_self)
    rw [fields, if_neg hc, ih fun hmem ↦ h (List.mem_cons_of_mem c hmem)]

theorem fields_append_cons (separator : Char) (left right : List Char) :
    fields separator (left ++ separator :: right) =
      fields separator left ++ fields separator right := by
  induction left with
  | nil => simp [fields]
  | cons c rest ih =>
    rw [List.cons_append, fields, fields, ih]
    split
    · rw [List.cons_append]
    · obtain ⟨piece, pieces, hpieces⟩ := List.exists_cons_of_ne_nil (fields_ne_nil separator rest)
      rw [hpieces, List.cons_append, List.cons_append]

theorem mem_of_mem_fields {piece : List Char} (hpiece : piece ∈ fields separator text)
    (hc : c ∈ piece) : c ∈ text := by
  induction text generalizing piece with
  | nil => simp_all [fields]
  | cons first rest ih =>
    rw [fields] at hpiece
    split at hpiece
    · rcases List.mem_cons.mp hpiece with rfl | hpiece
      · simp at hc
      · exact List.mem_cons_of_mem _ (ih hpiece hc)
    · obtain ⟨next, pieces, hpieces⟩ := List.exists_cons_of_ne_nil (fields_ne_nil separator rest)
      rw [hpieces] at hpiece ih
      rcases List.mem_cons.mp hpiece with rfl | hpiece
      · rcases List.mem_cons.mp hc with rfl | hc
        · exact List.mem_cons_self
        · exact List.mem_cons_of_mem _ (ih List.mem_cons_self hc)
      · exact List.mem_cons_of_mem _ (ih (List.mem_cons_of_mem _ hpiece) hc)

/-- A text with a separator goes on behind its last one. -/
theorem exists_last_field (h : separator ∈ text) :
    ∃ before last, text = before ++ separator :: last ∧ separator ∉ last := by
  obtain ⟨last, before, hcut, hlast⟩ := List.eq_append_cons_of_mem (List.mem_reverse.mpr h)
  refine ⟨before.reverse, last.reverse, ?_, fun hmem ↦ hlast (List.mem_reverse.mp hmem)⟩
  rw [← List.reverse_reverse text, hcut]
  simp

theorem cutFirst_append_cons (h : separator ∉ left) :
    cutFirst separator (left ++ separator :: right) = some (left, right) := by
  induction left with
  | nil => rw [List.nil_append, cutFirst, if_pos rfl]
  | cons c rest ih =>
    have hc : ¬ c = separator := fun heq ↦ h (heq ▸ List.mem_cons_self)
    rw [List.cons_append, cutFirst, if_neg hc, ih fun hmem ↦ h (List.mem_cons_of_mem c hmem)]
    rfl

/-! ### Blanks at the ends -/

/-- There is nothing but blanks in the text. -/
def Blank (text : List Char) : Prop :=
  ∀ c ∈ text, isBlank c = true

instance (text : List Char) : Decidable (Blank text) :=
  decidable_of_iff (text.all isBlank = true) List.all_eq_true

theorem Blank.not_mem (h : Blank text) (hc : isBlank c = false) : c ∉ text :=
  fun hmem ↦ Bool.false_ne_true (hc.symm.trans (h c hmem))

theorem blank_takeWhile (text : List Char) : Blank (text.takeWhile isBlank) :=
  fun _ hmem ↦ List.mem_takeWhile_imp hmem

theorem trim_append_left (h : Blank left) (text : List Char) : trim (left ++ text) = trim text := by
  rw [trim, List.dropWhile_append_of_pos h, trim]

theorem trimEnd_append_right (text : List Char) (h : Blank right) :
    trimEnd (text ++ right) = trimEnd text := by
  have hreversed : ∀ c ∈ right.reverse, isBlank c = true := fun c hmem ↦
    h c (List.mem_reverse.mp hmem)
  rw [trimEnd, List.reverse_append, List.dropWhile_append_of_pos hreversed, trimEnd]

theorem trim_of_blank (h : Blank text) : trim text = [] := by
  rw [trim, List.dropWhile_eq_nil_iff.mpr h]
  rfl

theorem trim_append_right (text : List Char) (h : Blank right) :
    trim (text ++ right) = trim text := by
  rw [trim, List.dropWhile_append]
  split
  · rename_i hblank
    rw [List.isEmpty_iff, List.dropWhile_eq_nil_iff] at hblank
    rw [trim_of_blank hblank, List.dropWhile_eq_nil_iff.mpr h]
    rfl
  · rw [trimEnd_append_right _ h, trim]

/-- The text ends with the blanks that are left out. -/
theorem eq_trimEnd_append (text : List Char) :
    ∃ right, Blank right ∧ text = trimEnd text ++ right := by
  refine ⟨(text.reverse.takeWhile isBlank).reverse,
    fun c hmem ↦ blank_takeWhile _ c (List.mem_reverse.mp hmem), ?_⟩
  rw [trimEnd, ← List.reverse_append, List.takeWhile_append_dropWhile, List.reverse_reverse]

theorem eq_append_trim (text : List Char) :
    ∃ left right, Blank left ∧ Blank right ∧ text = left ++ trim text ++ right := by
  obtain ⟨right, hright, hend⟩ := eq_trimEnd_append (text.dropWhile isBlank)
  refine ⟨text.takeWhile isBlank, right, blank_takeWhile text, hright, ?_⟩
  rw [trim, List.append_assoc, ← hend, List.takeWhile_append_dropWhile]

theorem mem_trim_iff (hc : isBlank c = false) : c ∈ trim text ↔ c ∈ text := by
  obtain ⟨left, right, hleft, hright, htext⟩ := eq_append_trim text
  constructor
  · intro hmem
    rw [htext]
    exact List.mem_append_left _ (List.mem_append_right _ hmem)
  · intro hmem
    rw [htext, List.mem_append, List.mem_append] at hmem
    rcases hmem with (hmem | hmem) | hmem
    · exact absurd hmem (hleft.not_mem hc)
    · exact hmem
    · exact absurd hmem (hright.not_mem hc)

/-- A text that is cut at something other than a blank is trimmed at the outer ends of its
halves. -/
theorem trim_append_cons (hc : isBlank c = false) (left right : List Char) :
    trim (left ++ c :: right) = left.dropWhile isBlank ++ c :: trimEnd right := by
  have hend (front : List Char) : trimEnd (front ++ c :: right) = front ++ c :: trimEnd right := by
    rw [trimEnd, trimEnd, List.reverse_append, List.reverse_cons, List.append_assoc,
      List.singleton_append, List.dropWhile_append]
    split
    · rename_i hblank
      rw [List.isEmpty_iff] at hblank
      rw [hblank, List.dropWhile_cons_of_neg (by simp [hc])]
      simp
    · simp
  rw [trim, List.dropWhile_append]
  split
  · rename_i hblank
    rw [List.isEmpty_iff] at hblank
    rw [hblank, List.dropWhile_cons_of_neg (by simp [hc]), List.nil_append]
    exact hend []
  · exact hend _

theorem trim_dropWhile (text : List Char) : trim (text.dropWhile isBlank) = trim text :=
  calc trim (text.dropWhile isBlank)
    _ = trim (text.takeWhile isBlank ++ text.dropWhile isBlank) :=
      (trim_append_left (blank_takeWhile text) _).symm
    _ = trim text := by rw [List.takeWhile_append_dropWhile]

theorem trim_trimEnd (text : List Char) : trim (trimEnd text) = trim text := by
  obtain ⟨right, hright, htext⟩ := eq_trimEnd_append text
  calc trim (trimEnd text)
    _ = trim (trimEnd text ++ right) := (trim_append_right _ hright).symm
    _ = trim text := by rw [← htext]

end ClassWeaver.Text
