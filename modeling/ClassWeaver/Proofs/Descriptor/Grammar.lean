import ClassWeaver.Proofs.Descriptor
import ClassWeaver.Transformer.Factory
import ClassWeaver.Transformer.Wrapper
import Mathlib.Data.List.TakeWhile
import Mathlib.Tactic.SplitIfs

/-!
The grammar of method descriptors.

`Written` says how a descriptor is put together, without taking any apart. Splitting finds the
parameters and the result of what is written so, and refuses everything else
(`split_eq_some_iff_written`).

A text in memory is cut at byte offsets, and only at those between its characters. `splitBytewise`
takes a descriptor apart that way, with every cut checked; no cut ever fails, so that it is the same
as splitting by characters (`splitBytewise_eq`).
-/

set_option autoImplicit false
set_option relaxedAutoImplicit false

namespace ClassWeaver.Descriptor

open Code Text

/-! ### What a descriptor is put together from -/

/-- One parameter: a primitive letter, or a class name between `L` and `;`, or an array of these. -/
inductive Parameter : List Char → Prop
  | primitive {c : Char} (hc : c ∈ "BCDFIJSZ".toList) : Parameter [c]
  | ofClass {name : List Char} (hname : ';' ∉ name) : Parameter ('L' :: name ++ [';'])
  | array {type : List Char} (htype : Parameter type) : Parameter ('[' :: type)

/-- The descriptor has these parameters and this result. -/
structure Written (descriptor : String) (types : List String) (result : String) : Prop where
  text : descriptor = "(" ++ String.join types ++ ")" ++ result
  result : result ≠ ""
  parameters : ∀ type ∈ types, Parameter type.toList ∧ ')' ∉ type.toList

theorem isPrimitive_iff {c : Char} : isPrimitive c = true ↔ c ∈ "BCDFIJSZ".toList :=
  List.contains_iff_mem

/-- The first parameter is read off whatever is behind it. -/
theorem Parameter.firstParameter_append {type : List Char} (h : Parameter type)
    (rest : List Char) : firstParameter (type ++ rest) = some (type, rest) := by
  induction h with
  | @primitive c hc =>
    have hbracket : c ≠ '[' := by
      rintro rfl
      exact absurd hc (by decide)
    have hclass : c ≠ 'L' := by
      rintro rfl
      exact absurd hc (by decide)
    rw [List.singleton_append, firstParameter, if_neg hbracket, if_neg hclass,
      if_pos (isPrimitive_iff.mpr hc)]
  | @ofClass name hname =>
    rw [List.append_assoc, List.cons_append, firstParameter, if_neg (by decide), if_pos rfl,
      List.singleton_append, cutFirst_append rest hname]
    rfl
  | array _ ih =>
    rw [List.cons_append, firstParameter, if_pos rfl, ih]
    rfl

theorem parameter_of_firstParameter {list type rest : List Char}
    (h : firstParameter list = some (type, rest)) : Parameter type := by
  induction list generalizing type with
  | nil => cases h
  | cons c list ih =>
    rw [firstParameter] at h
    split_ifs at h with hbracket hclass hprimitive
    · obtain ⟨⟨inner, _⟩, hinner, hsame⟩ := Option.map_eq_some_iff.mp h
      cases hsame
      exact hbracket ▸ .array (ih hinner)
    · obtain ⟨⟨name, _⟩, hcut, hsame⟩ := Option.map_eq_some_iff.mp h
      cases hsame
      exact hclass ▸ .ofClass (cutFirst_eq_some ';' hcut).2
    · cases h
      exact .primitive (isPrimitive_iff.mp hprimitive)

theorem parameters_cons {list type rest : List Char}
    (h : firstParameter list = some (type, rest)) :
    parameters list = (parameters rest).map (type :: ·) := by
  have hne : list ≠ [] := by
    rintro rfl
    cases h
  rw [parameters, if_neg hne]
  split
  · rename_i hnone
    cases hnone.symm.trans h
  · rename_i hsome
    cases hsome.symm.trans h
    rfl

theorem parameters_of_firstParameter_eq_none {list : List Char} (hne : list ≠ [])
    (h : firstParameter list = none) : parameters list = none := by
  rw [parameters, if_neg hne]
  split
  · rfl
  · rename_i hsome
    cases hsome.symm.trans h

/-- A list of parameters is read as these types exactly if it is these types, one behind the
other. -/
theorem parameters_eq_some_iff {list : List Char} {types : List (List Char)} :
    parameters list = some types ↔ types.flatten = list ∧ ∀ type ∈ types, Parameter type := by
  constructor
  · intro h
    refine ⟨flatten_of_parameters h, ?_⟩
    induction list using parameters.induct generalizing types with
    | case1 =>
      rw [parameters, if_pos rfl] at h
      cases h
      exact List.forall_mem_nil _
    | case2 list hne hfirst =>
      cases (parameters_of_firstParameter_eq_none hne hfirst).symm.trans h
    | case3 list hne first rest hfirst hlt ih =>
      rw [parameters_cons hfirst] at h
      obtain ⟨others, hothers, rfl⟩ := Option.map_eq_some_iff.mp h
      exact List.forall_mem_cons.mpr ⟨parameter_of_firstParameter hfirst, ih hothers⟩
  · rintro ⟨rfl, htypes⟩
    induction types with
    | nil => rw [List.flatten_nil, parameters, if_pos rfl]
    | cons type types ih =>
      obtain ⟨htype, hrest⟩ := List.forall_mem_cons.mp htypes
      rw [List.flatten_cons, parameters_cons (htype.firstParameter_append _), ih hrest]
      rfl

theorem toList_join (types : List String) :
    (String.join types).toList = (types.map String.toList).flatten := by
  simp [List.flatMap_def]

/-- Splitting finds what the descriptor is written from, and nothing else. -/
theorem split_eq_some_iff_written {descriptor result : String} {types : List String} :
    split descriptor = some (types, result) ↔ Written descriptor types result := by
  have htext (list : List Char) (hlist : (types.map String.toList).flatten = list) :
      descriptor.toList = '(' :: (list ++ ')' :: result.toList) ↔
        descriptor = "(" ++ String.join types ++ ")" ++ result := by
    rw [← String.toList_inj, ← hlist, ← toList_join]
    simp
  rw [split_eq_some]
  constructor
  · rintro ⟨list, parts, hresult, hlist, hparts, rfl, hdescriptor⟩
    obtain ⟨hflatten, hparameters⟩ := parameters_eq_some_iff.mp hparts
    have hsame : ((parts.map String.ofList).map String.toList).flatten = list := by
      rw [List.map_map, ← hflatten]
      simp
    refine ⟨(htext list hsame).mp hdescriptor, hresult, List.forall_mem_map.mpr fun type htype ↦ ?_⟩
    rw [String.toList_ofList]
    refine ⟨hparameters type htype, fun hmem ↦ hlist ?_⟩
    rw [← hflatten]
    exact List.mem_flatten_of_mem htype hmem
  · intro h
    refine ⟨_, types.map String.toList, h.result, fun hmem ↦ ?_,
      parameters_eq_some_iff.mpr ⟨rfl, ?_⟩, ?_, (htext _ rfl).mpr h.text⟩
    · obtain ⟨_, htype, hclosing⟩ := List.mem_flatten.mp hmem
      obtain ⟨type, hmem, rfl⟩ := List.mem_map.mp htype
      exact (h.parameters type hmem).2 hclosing
    · exact List.forall_mem_map.mpr fun type htype ↦ (h.parameters type htype).1
    · simp

/-! ### Cuts at byte offsets -/

/-- How many bytes a text takes in memory. -/
def width : List Char → Nat
  | [] => 0
  | c :: rest => c.utf8Size + width rest

/-- Cuts a text at a byte offset, unless that is outside of the text or inside of a character. -/
def cutAt? : List Char → Nat → Option (List Char × List Char)
  | text, 0 => some ([], text)
  | [], _ + 1 => none
  | c :: rest, offset + 1 =>
    if c.utf8Size ≤ offset + 1 then
      (cutAt? rest (offset + 1 - c.utf8Size)).map fun (front, back) ↦ (c :: front, back)
    else none

/-- The byte at an offset. -/
def byteAt? (text : List Char) (offset : Nat) : Option UInt8 :=
  (text.flatMap String.utf8EncodeChar)[offset]?

/-- The offset of the first such character. -/
def find? (c : Char) (text : List Char) : Option Nat :=
  (cutFirst c text).map fun (front, _) ↦ width front

theorem width_append (front back : List Char) :
    width (front ++ back) = width front + width back := by
  induction front with
  | nil => exact (Nat.zero_add _).symm
  | cons c front ih => rw [List.cons_append, width, width, ih, Nat.add_assoc]

theorem width_eq_zero_iff {text : List Char} : width text = 0 ↔ text = [] := by
  cases text with
  | nil => exact iff_of_true rfl rfl
  | cons c rest =>
    have hpos := c.utf8Size_pos
    exact iff_of_false (by rw [width]; omega) (List.cons_ne_nil c rest)

/-- A part in front that takes any bytes has the first character. -/
theorem cons_eq_append_iff {c : Char} {rest front back : List Char} {offset : Nat} :
    (c :: rest = front ++ back ∧ offset + 1 = width front) ↔
      ∃ inner, front = c :: inner ∧ rest = inner ++ back ∧
        offset + 1 = c.utf8Size + width inner := by
  constructor
  · rintro ⟨htext, hoffset⟩
    cases front with
    | nil => cases hoffset
    | cons first inner =>
      obtain ⟨rfl, rfl⟩ := List.cons.inj htext
      exact ⟨inner, rfl, rfl, hoffset⟩
  · rintro ⟨inner, rfl, rfl, hoffset⟩
    exact ⟨rfl, hoffset⟩

/-- A cut succeeds exactly at the offsets between characters. -/
theorem cutAt?_eq_some_iff {text front back : List Char} {offset : Nat} :
    cutAt? text offset = some (front, back) ↔ text = front ++ back ∧ offset = width front := by
  fun_induction cutAt? text offset generalizing front with
  | case1 text =>
    rw [eq_comm (a := 0), width_eq_zero_iff]
    constructor
    · intro h
      cases h
      exact ⟨rfl, rfl⟩
    · rintro ⟨rfl, rfl⟩
      rfl
  | case2 offset =>
    refine iff_of_false nofun ?_
    rintro ⟨hnil, hoffset⟩
    rw [(List.append_eq_nil_iff.mp hnil.symm).1] at hoffset
    cases hoffset
  | case3 c rest offset hle ih =>
    rw [Option.map_eq_some_iff, cons_eq_append_iff]
    constructor
    · rintro ⟨⟨inner, _⟩, hinner, hsame⟩
      cases hsame
      obtain ⟨rfl, hoffset⟩ := ih.mp hinner
      exact ⟨inner, rfl, rfl, by omega⟩
    · rintro ⟨inner, rfl, rfl, hoffset⟩
      exact ⟨(inner, back), ih.mpr ⟨rfl, by omega⟩, rfl⟩
  | case4 c rest offset hlt =>
    rw [cons_eq_append_iff]
    refine iff_of_false nofun ?_
    rintro ⟨inner, -, -, hoffset⟩
    omega

/-- Between two parts of a text, it can be cut. -/
theorem cutAt?_append (front back : List Char) :
    cutAt? (front ++ back) (width front) = some (front, back) :=
  cutAt?_eq_some_iff.mpr ⟨rfl, rfl⟩

theorem byteAt?_append (front back : List Char) (offset : Nat) :
    byteAt? (front ++ back) (width front + offset) = byteAt? back offset := by
  have hlength : (front.flatMap String.utf8EncodeChar).length = width front := by
    induction front with
    | nil => rfl
    | cons c front ih =>
      rw [List.flatMap_cons, List.length_append, String.length_utf8EncodeChar, ih, width]
  rw [byteAt?, List.flatMap_append, List.getElem?_append_right (by omega), hlength,
    Nat.add_sub_cancel_left]
  rfl

/-- An ASCII letter is told by the first byte of a character. -/
theorem exists_byteAt?_zero (c : Char) (rest : List Char) :
    ∃ byte, byteAt? (c :: rest) 0 = some byte ∧
      ∀ letter : Char, letter.toNat ≤ 0x7F → (byte = letter.toUInt8 ↔ c = letter) := by
  have hletter {letter : Char} (h : letter.toNat ≤ 0x7F) : letter.toUInt8.toNat = letter.toNat :=
    UInt8.toNat_ofNat_of_lt' (show letter.toNat < 256 by omega)
  have hfar {byte : UInt8} (hcharacter : 0x7F < c.toNat) (hbyte : 0x7F < byte.toNat)
      (letter : Char) (h : letter.toNat ≤ 0x7F) : byte = letter.toUInt8 ↔ c = letter := by
    refine iff_of_false ?_ ?_
    · rintro rfl
      rw [hletter h] at hbyte
      omega
    · rintro rfl
      omega
  have hvalue : c.val.toNat = c.toNat := rfl
  simp only [byteAt?, List.flatMap_cons, String.utf8EncodeChar, hvalue]
  split_ifs with hone htwo hthree
  · refine ⟨_, rfl, fun letter h ↦ ?_⟩
    rw [← UInt8.toNat_inj, hletter h, UInt8.toNat_ofNat_of_lt' (show c.toNat < 256 by omega)]
    exact ⟨fun hsame ↦ Char.toNat_inj.mp hsame, congrArg Char.toNat⟩
  · refine ⟨_, rfl, hfar (by omega) ?_⟩
    rw [UInt8.toNat_ofNat_of_lt' (show _ < 256 by omega)]
    omega
  · refine ⟨_, rfl, hfar (by omega) ?_⟩
    rw [UInt8.toNat_ofNat_of_lt' (show _ < 256 by omega)]
    omega
  · refine ⟨_, rfl, hfar (by omega) ?_⟩
    rw [UInt8.toNat_ofNat_of_lt' (show _ < 256 by omega)]
    omega

/-! ### Splitting at byte offsets -/

/-- Why taking a descriptor apart ends early. -/
inductive Stop where
  | badDescriptor
  /-- A cut was to be made outside of the text or inside of a character. -/
  | badOffset
  deriving DecidableEq, Repr

def cut (text : List Char) (offset : Nat) : Except Stop (List Char × List Char) :=
  (cutAt? text offset).elim (.error .badOffset) .ok

/-- How many bytes the first parameter takes. -/
def firstWidth (list : List Char) : Except Stop Nat :=
  let dimensions := width list - width (list.dropWhile (· = '['))
  match byteAt? list dimensions with
  | none => .error .badDescriptor
  | some byte =>
    if byte = 'L'.toUInt8 then do
      let (_, named) ← cut list dimensions
      match find? ';' named with
      | none => .error .badDescriptor
      | some stop => .ok (dimensions + (stop + 1))
    else if byte ∈ "BCDFIJSZ".toList.map Char.toUInt8 then .ok (dimensions + 1)
    else .error .badDescriptor

theorem utf8Size_of_primitive {c : Char} (h : c ∈ "BCDFIJSZ".toList) : c.utf8Size = 1 := by
  have hall : "BCDFIJSZ".toList.all (·.utf8Size = 1) = true := by decide
  exact of_decide_eq_true (List.all_eq_true.mp hall c h)

/-- Brackets in front belong to the first parameter. -/
theorem firstParameter_brackets {brackets : List Char} (h : ∀ c ∈ brackets, c = '[')
    (tail : List Char) : firstParameter (brackets ++ tail) =
      (firstParameter tail).map fun (type, rest) ↦ (brackets ++ type, rest) := by
  induction brackets with
  | nil => simp
  | cons bracket brackets ih =>
    obtain ⟨rfl, hrest⟩ := List.forall_mem_cons.mp h
    rw [List.cons_append, firstParameter, if_pos rfl, ih hrest, Option.map_map]
    rfl

/-- The brackets in front of a text, and how many bytes they take. -/
theorem exists_brackets (list : List Char) :
    ∃ brackets tail, list = brackets ++ tail ∧ (∀ c ∈ brackets, c = '[') ∧
      tail.head? ≠ some '[' ∧
      width list - width (list.dropWhile (· = '[')) = width brackets := by
  have hlist : list = list.takeWhile (· = '[') ++ list.dropWhile (· = '[') :=
    List.takeWhile_append_dropWhile.symm
  refine ⟨_, _, hlist, fun c hc ↦ of_decide_eq_true (List.mem_takeWhile_imp (p := (· = '[')) hc),
    fun hbracket ↦ ?_, ?_⟩
  · have hhead := List.head?_dropWhile_not (· = '[') list
    rw [hbracket] at hhead
    cases hhead
  · have hwidth := congrArg width hlist
    rw [width_append] at hwidth
    omega

/-- A primitive letter is told by the first byte of a character. -/
theorem primitiveByte_iff {byte : UInt8} {c : Char}
    (h : ∀ letter : Char, letter.toNat ≤ 0x7F → (byte = letter.toUInt8 ↔ c = letter)) :
    byte ∈ "BCDFIJSZ".toList.map Char.toUInt8 ↔ isPrimitive c = true := by
  have hascii (letter : Char) (hmem : letter ∈ "BCDFIJSZ".toList) : letter.toNat ≤ 0x7F :=
    UInt32.le_iff_toNat_le.mp (Char.utf8Size_eq_one_iff.mp (utf8Size_of_primitive hmem))
  rw [isPrimitive_iff, List.mem_map]
  constructor
  · rintro ⟨letter, hmem, hsame⟩
    exact ((h letter (hascii letter hmem)).mp hsame.symm) ▸ hmem
  · exact fun hmem ↦ ⟨c, hmem, ((h c (hascii c hmem)).mpr rfl).symm⟩

/-- Looking for the end of a class name from its `L` on finds the end of the name. -/
theorem find?_named (rest : List Char) : find? ';' ('L' :: rest) =
    (cutFirst ';' rest).map fun (name, _) ↦ width ('L' :: name) := by
  rw [find?, cutFirst, if_neg (by decide), Option.map_map]
  rfl

/-- The first parameter takes as many bytes as what is read off, and finding that out needs no cut
that fails. -/
theorem firstWidth_eq (list : List Char) :
    firstWidth list = (firstParameter list).elim (.error .badDescriptor) (.ok <| width ·.1) := by
  obtain ⟨brackets, tail, rfl, hbrackets, htail, hdimensions⟩ := exists_brackets list
  have hbyte := byteAt?_append brackets tail 0
  rw [Nat.add_zero] at hbyte
  rw [firstWidth, hdimensions, hbyte, firstParameter_brackets hbrackets]
  cases tail with
  | nil => rfl
  | cons c rest =>
    obtain ⟨byte, hfirst, hletter⟩ := exists_byteAt?_zero c rest
    have hbracket : c ≠ '[' := by
      rintro rfl
      exact htail rfl
    rw [hfirst, firstParameter, if_neg hbracket]
    dsimp only
    simp only [hletter 'L' (by decide), primitiveByte_iff hletter, cut, cutAt?_append]
    by_cases hclass : c = 'L'
    · subst hclass
      rw [if_pos rfl, if_pos rfl]
      change (match find? ';' ('L' :: rest) with | none => _ | some stop => _) = _
      rw [find?_named]
      cases cutFirst ';' rest with
      | none => rfl
      | some found => exact congrArg Except.ok (by simp [width_append, width, Char.utf8Size]; omega)
    · rw [if_neg hclass, if_neg hclass]
      split
      · rename_i hc
        have hone : c.utf8Size = 1 := utf8Size_of_primitive (isPrimitive_iff.mp hc)
        exact congrArg Except.ok (by simp [width_append, width, hone])
      · rfl

theorem firstWidth_pos {list : List Char} {offset : Nat} (h : firstWidth list = .ok offset) :
    0 < offset := by
  rw [firstWidth_eq] at h
  cases hfirst : firstParameter list with
  | none =>
    rw [hfirst] at h
    cases h
  | some found =>
    rw [hfirst] at h
    cases h
    exact Nat.pos_of_ne_zero fun hzero ↦
      (firstParameter_eq_some hfirst).2 (width_eq_zero_iff.mp hzero)

theorem length_lt_of_cut {list type rest : List Char} {offset : Nat}
    (hwidth : firstWidth list = .ok offset) (hcut : cutAt? list offset = some (type, rest)) :
    rest.length < list.length := by
  obtain ⟨rfl, rfl⟩ := cutAt?_eq_some_iff.mp hcut
  have hne : type ≠ [] := fun hnil ↦ (firstWidth_pos hwidth).ne' (width_eq_zero_iff.mpr hnil)
  have hpos := List.length_pos_iff.mpr hne
  rw [List.length_append]
  omega

/-- All parameters, one cut behind the other. -/
def parametersBytewise (list : List Char) : Except Stop (List (List Char)) :=
  if list = [] then .ok []
  else
    match _hwidth : firstWidth list with
    | .error stop => .error stop
    | .ok offset =>
      match _hcut : cutAt? list offset with
      | none => .error .badOffset
      | some (type, rest) => (parametersBytewise rest).map (type :: ·)
termination_by list.length
decreasing_by exact length_lt_of_cut ‹_› ‹_›

/-- The parameters and the result of a method descriptor, cut out of it at byte offsets. -/
def splitBytewise (descriptor : String) : Except Stop (List String × String) :=
  match descriptor.toList with
  | '(' :: inner =>
    match find? ')' inner with
    | none => .error .badDescriptor
    | some close => do
      let (list, _) ← cut inner close
      let (_, result) ← cut inner (close + 1)
      if result = [] then .error .badDescriptor
      else
        let types ← parametersBytewise list
        return (types.map String.ofList, String.ofList result)
  | _ => .error .badDescriptor

/-- Reading the parameters off byte by byte gives what reading them off by characters gives. -/
theorem parametersBytewise_eq (list : List Char) :
    parametersBytewise list = (parameters list).elim (.error .badDescriptor) .ok := by
  induction list using parameters.induct with
  | case1 =>
    rw [parametersBytewise, if_pos rfl, parameters, if_pos rfl]
    rfl
  | case2 list hne hfirst =>
    have hbad : firstWidth list = .error .badDescriptor := by
      rw [firstWidth_eq, hfirst]
      rfl
    rw [parametersBytewise, if_neg hne, parameters_of_firstParameter_eq_none hne hfirst]
    split
    · rename_i hwidth
      cases hbad.symm.trans hwidth
      rfl
    · rename_i hwidth
      cases hbad.symm.trans hwidth
  | case3 list hne first rest hfirst hlt ih =>
    have hgood : firstWidth list = .ok (width first) := by
      rw [firstWidth_eq, hfirst]
      rfl
    have hparts : cutAt? list (width first) = some (first, rest) := by
      obtain ⟨rfl, -⟩ := firstParameter_eq_some hfirst
      exact cutAt?_append first rest
    rw [parametersBytewise, if_neg hne, parameters_cons hfirst]
    split
    · rename_i hwidth
      cases hgood.symm.trans hwidth
    · rename_i offset hwidth
      cases hgood.symm.trans hwidth
      split
      · rename_i hcut
        cases hparts.symm.trans hcut
      · rename_i hcut
        cases hparts.symm.trans hcut
        rw [ih]
        cases parameters rest <;> rfl

/-- Splitting what starts with a parenthesis. -/
theorem split_of_toList {descriptor : String} {inner : List Char}
    (h : descriptor.toList = '(' :: inner) :
    split descriptor = (cutFirst ')' inner).bind fun (list, result) ↦
      if result = [] then none
      else (parameters list).map fun types ↦ (types.map String.ofList, String.ofList result) := by
  rw [split, h]
  refine congrArg (cutFirst ')' inner).bind (funext fun found ↦ ?_)
  dsimp only
  split_ifs
  · rfl
  · cases parameters found.1 <;> rfl

/-- No cut fails: taking a descriptor apart at byte offsets is splitting it. -/
theorem splitBytewise_eq (descriptor : String) :
    splitBytewise descriptor = (split descriptor).elim (.error .badDescriptor) .ok := by
  rw [splitBytewise]
  split
  · rename_i inner hinner
    rw [split_of_toList hinner, find?]
    cases hclose : cutFirst ')' inner with
    | none => rfl
    | some found =>
      obtain ⟨list, result⟩ := found
      obtain ⟨rfl, -⟩ := cutFirst_eq_some ')' hclose
      have hlist : cut (list ++ ')' :: result) (width list) = .ok (list, ')' :: result) := by
        rw [cut, cutAt?_append]
        rfl
      have hresult :
          cut (list ++ ')' :: result) (width list + 1) = .ok (list ++ [')'], result) := by
        have hwidth : width list + 1 = width (list ++ [')']) := (width_append list [')']).symm
        rw [cut, hwidth, List.append_cons, cutAt?_append]
        rfl
      change (cut _ (width list) >>= fun first ↦ cut _ (width list + 1) >>= fun second ↦
        if second.2 = [] then .error .badDescriptor
        else parametersBytewise first.1 >>= fun types ↦
          .ok (types.map String.ofList, String.ofList second.2)) = _
      rw [hlist, hresult]
      change (if result = [] then _ else parametersBytewise list >>= _) =
        (if result = [] then none else _ : Option (List String × String)).elim _ _
      rw [parametersBytewise_eq]
      split_ifs
      · rfl
      · cases parameters list <;> rfl
  · rename_i hother
    rw [split]
    split
    · rename_i hinner
      exact absurd hinner (hother _)
    · rfl

/-! ### Descriptors -/

/-- Splitting finds the parameters and the result that a descriptor is written from, of which there
is one choice at most; any other text is refused as a bad descriptor wherever one is taken apart,
and no cut leaves the text or hits the inside of a character. The descriptor of the factory method
is written from the same parameters, and is split again into these and the product. -/
theorem split_as_written (descriptor : String) :
    (∀ types result, split descriptor = some (types, result) ↔ Written descriptor types result) ∧
    (∀ types result others other, Written descriptor types result →
      Written descriptor others other → others = types ∧ other = result) ∧
    (split descriptor = none →
      Wrapper.returnedType descriptor = .error (.badDescriptor descriptor) ∧
        ∀ product, Factory.factoryDescriptor product descriptor =
          .error (.badDescriptor descriptor)) ∧
    splitBytewise descriptor = (split descriptor).elim (.error .badDescriptor) .ok ∧
    ∀ types result, Written descriptor types result → ∀ product, ∃ text,
      Factory.factoryDescriptor product descriptor = .ok text ∧
      text = "(" ++ String.join types ++ ")" ++ ("L" ++ product ++ ";") ∧
      split text = some (types, "L" ++ product ++ ";") := by
  refine ⟨fun _ _ ↦ split_eq_some_iff_written, fun types result others other h hother ↦ ?_,
    fun hnone ↦ ⟨by rw [Wrapper.returnedType, hnone], fun product ↦ by
      rw [Factory.factoryDescriptor, hnone]⟩, splitBytewise_eq descriptor,
    fun types result h product ↦ ⟨_, ?_, rfl, ?_⟩⟩
  · have hsame :=
      (split_eq_some_iff_written.mpr h).symm.trans (split_eq_some_iff_written.mpr hother)
    cases hsame
    exact ⟨rfl, rfl⟩
  · rw [Factory.factoryDescriptor, split_eq_some_iff_written.mpr h]
    rfl
  · refine split_join (split_eq_some_iff_written.mpr h) fun hempty ↦ ?_
    exact absurd (congrArg String.toList hempty) (by simp)

/-- Arrays, a class name that is no ASCII text, and a result that is no type at all. -/
theorem split_as_written_arrays :
    Written "(I[[J[Lé/名;)?" ["I", "[[J", "[Lé/名;"] "?" ∧
      split "(I[[J[Lé/名;)?" = some (["I", "[[J", "[Lé/名;"], "?") ∧
      splitBytewise "(I[[J[Lé/名;)?" = .ok (["I", "[[J", "[Lé/名;"], "?") ∧
      split "(I[[J[Lé/名;)LT;" = some (["I", "[[J", "[Lé/名;"], "LT;") := by
  have hclass : Parameter ('L' :: ['é', '/', '名'] ++ [';']) := .ofClass (by decide)
  have hwritten : Written "(I[[J[Lé/名;)?" ["I", "[[J", "[Lé/名;"] "?" :=
    ⟨by decide, by decide, List.forall_mem_cons.mpr ⟨⟨.primitive (by decide), by decide⟩,
      List.forall_mem_cons.mpr ⟨⟨.array (.array (.primitive (by decide))), by decide⟩,
        List.forall_mem_singleton.mpr ⟨.array hclass, by decide⟩⟩⟩⟩
  obtain ⟨hsplit, -, -, hbytewise, hfactory⟩ := split_as_written "(I[[J[Lé/名;)?"
  have hfound := (hsplit _ _).mpr hwritten
  obtain ⟨text, -, rfl, hagain⟩ := hfactory _ _ hwritten "T"
  refine ⟨hwritten, hfound, ?_, hagain⟩
  rw [hbytewise, hfound]
  rfl

end ClassWeaver.Descriptor
