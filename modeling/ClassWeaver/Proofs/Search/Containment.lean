import ClassWeaver.Search.Access
import ClassWeaver.Search.FileTree
import ClassWeaver.Proofs.Text.Fields

/-!
Which file a directory on a search path opens for the name of a class.

Dots are spelled as slashes before the resource is joined to the directory, so no piece of the
resource is a dot or two dots. What is opened then lies beneath the directory, and what else there
is in a tree has no bearing on the answer (`Confined`). The first character of a name is the
exception: a dot or a slash there makes the resource an absolute path, which takes the place of the
directory (`findClass_confined`).
-/

set_option autoImplicit false
set_option relaxedAutoImplicit false

namespace ClassWeaver

/-! ### The pieces of a resource -/

namespace ClassName

/-- The first character of the name is spelled as a slash in its resource. -/
def Leading (name : String) : Prop :=
  name.toList.head? = some '.' ∨ name.toList.head? = some '/'

instance (name : String) : Decidable (Leading name) :=
  inferInstanceAs (Decidable (_ ∨ _))

theorem slashed_dotted (name : String) : slashed (dotted name) = slashed name :=
  respell_respell (by decide) name

theorem resource_dotted (name : String) : resource (dotted name) = resource name := by
  rw [resource, slashed_dotted, resource]

theorem toList_resource (name : String) :
    (resource name).toList = (slashed name).toList ++ ".class".toList := by
  rw [resource, String.toList_append]

theorem dot_not_mem_slashed (name : String) : '.' ∉ (slashed name).toList := by
  simp only [slashed, respell, String.toList_ofList, List.mem_map, not_exists, not_and]
  intro c _
  split
  · decide
  · assumption

theorem isAbsolute_resource_iff (name : String) :
    Search.FilePath.isAbsolute (resource name) = true ↔ Leading name := by
  rw [Search.FilePath.isAbsolute, toList_resource, slashed, respell, String.toList_ofList, Leading]
  cases name.toList with
  | nil => decide
  | cons c rest =>
    simp only [List.map_cons, List.cons_append, List.head?_cons, beq_iff_eq, Option.some.injEq]
    split <;> simp_all

/-- No piece of a resource but the last has a dot, and that one ends with the extension. -/
theorem fields_resource (name : String) :
    ∃ front last, Text.fields '/' (resource name).toList = front ++ [last ++ ".class".toList] ∧
      ∀ piece ∈ front, '.' ∉ piece := by
  have hdot := dot_not_mem_slashed name
  rw [toList_resource]
  generalize (slashed name).toList = text at hdot
  by_cases hslash : '/' ∈ text
  · obtain ⟨before, last, rfl, hlast⟩ := Text.exists_last_field hslash
    refine ⟨Text.fields '/' before, last, ?_, fun piece hpiece hmem ↦ ?_⟩
    · have hend : '/' ∉ last ++ ".class".toList := by simp [hlast]
      rw [List.append_assoc, List.cons_append, Text.fields_append_cons, Text.fields_of_not_mem hend]
    · exact hdot (List.mem_append_left _ (Text.mem_of_mem_fields hpiece hmem))
  · refine ⟨[], text, ?_, by simp⟩
    rw [Text.fields_of_not_mem (by simp [hslash])]
    rfl

/-- No piece of a resource consists of dots. -/
theorem exists_ne_dot_of_mem_fields {name : String} {piece : List Char}
    (hpiece : piece ∈ Text.fields '/' (resource name).toList) :
    piece = [] ∨ ∃ c ∈ piece, c ≠ '.' := by
  obtain ⟨front, last, hfields, hfront⟩ := fields_resource name
  rw [hfields, List.mem_append, List.mem_singleton] at hpiece
  rcases hpiece with hpiece | rfl
  · cases piece with
    | nil => exact .inl rfl
    | cons c rest =>
      exact .inr ⟨c, List.mem_cons_self, fun heq ↦ hfront _ hpiece (heq ▸ List.mem_cons_self)⟩
  · exact .inr ⟨'c', by simp, by decide⟩

theorem ne_here_of_mem_fields (name : String) :
    ∀ piece ∈ Text.fields '/' (resource name).toList, piece ≠ ['.'] := by
  rintro _ hpiece rfl
  simpa using exists_ne_dot_of_mem_fields hpiece

theorem ne_up_of_mem_fields (name : String) :
    ∀ piece ∈ Text.fields '/' (resource name).toList, piece ≠ ['.', '.'] := by
  rintro _ hpiece rfl
  simpa using exists_ne_dot_of_mem_fields hpiece

end ClassName

namespace Search

open ClassName (Leading resource dotted)

/-! ### Components of a joined path -/

namespace FilePath

variable {base path : String}

theorem exists_join_eq_append (base : String) (h : isAbsolute path = false) :
    ∃ rest, join base path = base ++ rest := by
  rw [join, if_neg (by simp [h])]
  split
  · exact ⟨path, rfl⟩
  · exact ⟨"/" ++ path, String.append_assoc⟩

theorem isAbsolute_join (h : isAbsolute path = false) :
    isAbsolute (join base path) = isAbsolute base := by
  by_cases hbase : base = ""
  · rw [hbase, join, if_neg (by simp [h]), if_pos (.inl rfl), String.empty_append, h]
    rfl
  · obtain ⟨rest, hjoin⟩ := exists_join_eq_append base h
    have hne : base.toList ≠ [] := fun hnil ↦ hbase (String.toList_eq_nil_iff.mp hnil)
    rw [hjoin, isAbsolute, String.toList_append, isAbsolute]
    obtain ⟨c, more, htext⟩ := List.exists_cons_of_ne_nil hne
    rw [htext, List.cons_append, List.head?_cons, List.head?_cons]

/-- Joining puts a slash in between, unless there is one or nothing stands in front of it. -/
theorem join_cases (base : String) (h : isAbsolute path = false) :
    base = "" ∧ join base path = path ∨
      ∃ stem, (join base path).toList = stem ++ '/' :: path.toList ∧
        (base.toList = stem ∧ stem ≠ [] ∨ base.toList = stem ++ ['/']) := by
  rw [join, if_neg (by simp [h])]
  split
  · rename_i hbase
    rcases hbase with rfl | hslash
    · exact .inl ⟨rfl, by rw [String.empty_append]⟩
    · obtain ⟨stem, hstem⟩ := List.getLast?_eq_some_iff.mp hslash
      refine .inr ⟨stem, ?_, .inr hstem⟩
      rw [String.toList_append, hstem]
      simp
  · rename_i hbase
    have hne : base.toList ≠ [] := fun hnil ↦ hbase (.inl (String.toList_eq_nil_iff.mp hnil))
    exact .inr ⟨base.toList, by simp [String.toList_append], .inl ⟨rfl, hne⟩⟩

theorem filterMap_component?_eq_map {pieces : List (List Char)}
    (h : ∀ piece ∈ pieces, piece ≠ ['.', '.']) :
    ∃ names : List String, pieces.filterMap component? = names.map .named := by
  induction pieces with
  | nil => exact ⟨[], rfl⟩
  | cons piece rest ih =>
    obtain ⟨names, hnames⟩ := ih fun other hmem ↦ h other (List.mem_cons_of_mem _ hmem)
    have hup := h piece List.mem_cons_self
    by_cases hempty : piece = [] ∨ piece = ['.']
    · exact ⟨names, by rw [List.filterMap_cons_none (by simp [component?, hempty]), hnames]⟩
    · refine ⟨String.ofList piece :: names, ?_⟩
      rw [List.filterMap_cons_some (by rw [component?, if_neg hempty, if_neg hup]), hnames]
      rfl

theorem components_of_relative (h : isAbsolute path = false) :
    components path =
      match Text.fields '/' path.toList with
      | [] => []
      | first :: rest => leading first ++ rest.filterMap component? := by
  rw [components]
  split
  · rename_i rest hpath
    rw [isAbsolute, hpath] at h
    cases h
  · rfl

theorem root_mem_components (h : isAbsolute path = true) : .root ∈ components path := by
  obtain ⟨rest, hpath⟩ := List.head?_eq_some_iff.mp (eq_of_beq h)
  rw [components, hpath]
  exact List.mem_cons_self

theorem root_not_mem_components (h : isAbsolute path = false) : .root ∉ components path := by
  have hcomponent (piece : List Char) : component? piece ≠ some .root := by
    rw [component?]
    split
    · simp
    · split <;> simp
  rw [components_of_relative h]
  split
  · simp
  · simp only [List.mem_append, List.mem_filterMap, not_or, not_exists, not_and]
    refine ⟨?_, fun piece _ ↦ hcomponent piece⟩
    rw [leading]
    split
    · simp
    · simpa using hcomponent _

/-- A path that goes on behind a slash has the components of what stands in front, and behind. -/
theorem components_append_slash {stem text : List Char} (h : stem ≠ []) :
    components (String.ofList (stem ++ '/' :: text)) =
      components (String.ofList stem) ++ (Text.fields '/' text).filterMap component? := by
  obtain ⟨c, rest, rfl⟩ := List.exists_cons_of_ne_nil h
  by_cases hc : c = '/'
  · subst hc
    simp only [components, List.cons_append, String.toList_ofList, Text.fields_append_cons,
      List.filterMap_append]
  · have hrelative (more : List Char) : isAbsolute (String.ofList (c :: more)) = false := by
      simp [isAbsolute, hc]
    obtain ⟨first, more, hfields⟩ :=
      List.exists_cons_of_ne_nil (Text.fields_ne_nil '/' (c :: rest))
    rw [List.cons_append, components_of_relative (hrelative _),
      components_of_relative (hrelative _), String.toList_ofList, String.toList_ofList,
      ← List.cons_append, Text.fields_append_cons, hfields]
    simp only [List.cons_append, List.filterMap_append, List.append_assoc]

theorem components_join (h : isAbsolute path = false)
    (hhere : ∀ piece ∈ Text.fields '/' path.toList, piece ≠ ['.']) :
    components (join base path) =
      components base ++ (Text.fields '/' path.toList).filterMap component? := by
  rcases join_cases base h with ⟨rfl, hjoin⟩ | ⟨stem, hjoin, hbase⟩
  · obtain ⟨first, more, hfields⟩ :=
      List.exists_cons_of_ne_nil (Text.fields_ne_nil '/' path.toList)
    have hfirst : leading first = (component? first).toList := by
      rw [leading, if_neg (hhere first (by rw [hfields]; exact List.mem_cons_self))]
    rw [hjoin, components_of_relative h, hfields]
    change leading first ++ _ = [] ++ _
    rw [hfirst, List.filterMap_cons, List.nil_append]
    cases component? first <;> rfl
  · rw [← String.ofList_toList (s := join base path), hjoin]
    rcases hbase with ⟨hbase, hne⟩ | hbase
    · rw [components_append_slash hne, ← hbase, String.ofList_toList]
    · rw [← String.ofList_toList (s := base), hbase]
      by_cases hne : stem = []
      · rw [hne]
        simp [components, Text.fields, component?]
      · rw [components_append_slash hne, components_append_slash hne]
        simp [Text.fields, component?]

end FilePath

/-! ### Following a joined path -/

namespace FileTree

/-- The way of a path through a tree from the top. -/
def walk (tree : FileTree) (path : String) : Except Unreadable (Option FileTree) :=
  tree.follow [] (Text.fields '/' path.toList)

theorem follow_directory (parents : List FileTree) (children : List (String × FileTree))
    (piece : List Char) (rest : List (List Char)) :
    (directory children).follow parents (piece :: rest) =
      if piece = [] ∨ piece = ['.'] then (directory children).follow parents rest
      else if piece = ['.', '.'] then
        match parents with
        | [] => (directory children).follow [] rest
        | parent :: others => parent.follow others rest
      else if maxNameLength < (String.ofList piece).utf8ByteSize then .error ⟨⟩
      else
        match children.lookup (String.ofList piece) with
        | some child => child.follow (directory children :: parents) rest
        | none => .ok none :=
  rfl

/-- Empty pieces on the way make no difference. -/
theorem follow_skip {pieces : List (List Char)} (h : pieces ≠ []) (front : List (List Char))
    (parents : List FileTree) (tree : FileTree) :
    tree.follow parents (front ++ [] :: pieces) = tree.follow parents (front ++ pieces) := by
  induction front generalizing parents tree with
  | nil =>
    cases tree with
    | directory children => simp [follow]
    | file content =>
      obtain ⟨piece, rest, rfl⟩ := List.exists_cons_of_ne_nil h
      rfl
  | cons piece rest ih =>
    cases tree with
    | file content => rfl
    | directory children => simp only [List.cons_append, follow, ih]

/-- Where no piece leads up, it does not matter what lies above. -/
theorem follow_eq_of_no_up {pieces : List (List Char)} (h : ∀ piece ∈ pieces, piece ≠ ['.', '.'])
    (parents others : List FileTree) (tree : FileTree) :
    tree.follow parents pieces = tree.follow others pieces := by
  induction pieces generalizing parents others tree with
  | nil => rfl
  | cons piece rest ih =>
    have hrest := ih fun other hmem ↦ h other (List.mem_cons_of_mem _ hmem)
    cases tree with
    | file content => rfl
    | directory children =>
      simp only [follow_directory, if_neg (h piece List.mem_cons_self)]
      rw [hrest parents others]
      split
      · rfl
      · split
        · rfl
        · split
          · exact hrest _ _ _
          · rfl

/-- Goes on from what a path has led to. -/
def onward (pieces : List (List Char)) :
    Option FileTree → Except Unreadable (Option FileTree)
  | some inner => inner.follow [] pieces
  | none => .ok none

theorem follow_append {pieces : List (List Char)} (h : ∀ piece ∈ pieces, piece ≠ ['.', '.'])
    (front : List (List Char)) (parents : List FileTree) (tree : FileTree) :
    tree.follow parents (front ++ pieces) = (tree.follow parents front).bind (onward pieces) := by
  induction front generalizing parents tree with
  | nil => exact follow_eq_of_no_up h parents [] tree
  | cons piece rest ih =>
    cases tree with
    | file content => rfl
    | directory children =>
      rw [List.cons_append, follow_directory, follow_directory]
      split
      · exact ih _ _
      · split
        · cases parents with
          | nil => exact ih _ _
          | cons parent others => exact ih _ _
        · split
          · rfl
          · cases children.lookup (String.ofList piece) with
            | none => rfl
            | some child => exact ih _ _

theorem follow_join {base path : String} (h : FilePath.isAbsolute path = false)
    (hup : ∀ piece ∈ Text.fields '/' path.toList, piece ≠ ['.', '.']) (front : List (List Char))
    (tree : FileTree) :
    tree.follow [] (front ++ Text.fields '/' (FilePath.join base path).toList) =
      (tree.follow [] (front ++ Text.fields '/' base.toList)).bind
        (onward (Text.fields '/' path.toList)) := by
  have hne := Text.fields_ne_nil '/' path.toList
  rw [← follow_append hup, List.append_assoc]
  rcases FilePath.join_cases base h with ⟨rfl, hjoin⟩ | ⟨stem, hjoin, hbase⟩
  · rw [hjoin]
    exact (follow_skip hne front [] tree).symm
  · rw [hjoin, Text.fields_append_cons]
    rcases hbase with ⟨hbase, -⟩ | hbase
    · rw [hbase]
    · rw [hbase, Text.fields_append_cons, List.append_assoc, ← List.append_assoc front,
        ← List.append_assoc front]
      exact (follow_skip hne _ [] tree).symm

end FileTree

namespace FileSystem

/-- The path can be looked up: it has no null character, and it is not too long. -/
def Usable (path : String) : Prop :=
  (path.toList.contains (Char.ofNat 0) || FileTree.maxPathLength < path.utf8ByteSize) = false

theorem find?_of_usable {path : String} (h : Usable path) (system : FileSystem) :
    system.find? path = system.tree.follow [] (system.pieces path) := by
  rw [find?, if_neg (by rw [h]; decide)]

theorem find?_of_not_usable {path : String} (h : ¬ Usable path) (system : FileSystem) :
    system.find? path = .error ⟨⟩ := by
  rw [find?, if_pos (Bool.not_eq_false _ ▸ h)]

theorem Usable.of_append {base rest : String} (h : Usable (base ++ rest)) : Usable base := by
  simp only [Usable, String.toList_append, String.utf8ByteSize_append, Bool.or_eq_false_iff,
    List.contains_eq_mem, List.mem_append, decide_eq_false_iff_not, not_or] at h ⊢
  exact ⟨h.1.1, by omega⟩

end FileSystem

/-! ### The file that is opened -/

/-- The file that a directory opens for the class file of `name`. -/
def opened (directory name : String) : String :=
  FilePath.join directory (resource name)

/-- The path goes down from the directory. -/
def Beneath (directory path : String) : Prop :=
  ∃ names : List String, names ≠ [] ∧
    FilePath.components path = FilePath.components directory ++ names.map .named

/-- The path goes down from the directory, and nothing but what the directory leads to counts. -/
structure Confined (directory path : String) : Prop where
  beneath : Beneath directory path
  /-- For an absolute directory the trees are those from the top of the file system, for another
  one those in which it is looked up. -/
  walks : ∀ tree other : FileTree, tree.walk directory = other.walk directory →
    tree.walk path = other.walk path
  reads : ∀ system other : FileSystem, system.find? directory = other.find? directory →
    system.read? path = other.read? path

section Opened

variable {directory name : String} (h : ¬ Leading name)
include h

theorem isAbsolute_resource : FilePath.isAbsolute (resource name) = false :=
  Bool.eq_false_iff.mpr (mt (ClassName.isAbsolute_resource_iff name).mp h)

theorem beneath_opened : Beneath directory (opened directory name) := by
  obtain ⟨names, hnames⟩ :=
    FilePath.filterMap_component?_eq_map (ClassName.ne_up_of_mem_fields name)
  refine ⟨names, ?_, ?_⟩
  · -- the last piece ends with the extension, so it is the name of something
    rintro rfl
    obtain ⟨front, last, hfields, -⟩ := ClassName.fields_resource name
    have hlast : last ++ ".class".toList ∈ Text.fields '/' (resource name).toList := by
      rw [hfields]
      exact List.mem_append_right _ (List.mem_singleton.mpr rfl)
    have hcomponent := List.filterMap_eq_nil_iff.mp hnames _ hlast
    have hne : ¬ (last ++ ".class".toList = [] ∨ last ++ ".class".toList = ['.']) :=
      not_or.mpr ⟨by simp, ClassName.ne_here_of_mem_fields name _ hlast⟩
    rw [FilePath.component?, if_neg hne,
      if_neg (ClassName.ne_up_of_mem_fields name _ hlast)] at hcomponent
    exact Option.some_ne_none _ hcomponent
  · rw [opened, FilePath.components_join (isAbsolute_resource h)
      (ClassName.ne_here_of_mem_fields name), hnames]

theorem follow_opened (front : List (List Char)) (tree : FileTree) :
    tree.follow [] (front ++ Text.fields '/' (opened directory name).toList) =
      (tree.follow [] (front ++ Text.fields '/' directory.toList)).bind
        (FileTree.onward (Text.fields '/' (resource name).toList)) :=
  FileTree.follow_join (isAbsolute_resource h) (ClassName.ne_up_of_mem_fields name) front tree

theorem walk_opened (tree : FileTree) :
    tree.walk (opened directory name) =
      (tree.walk directory).bind (FileTree.onward (Text.fields '/' (resource name).toList)) := by
  have hfollow := @follow_opened directory name h [] tree
  rwa [List.nil_append, List.nil_append] at hfollow

theorem find?_opened_congr {system other : FileSystem}
    (halike : system.find? directory = other.find? directory) :
    system.find? (opened directory name) = other.find? (opened directory name) := by
  by_cases husable : FileSystem.Usable (opened directory name)
  · obtain ⟨rest, hjoin⟩ :=
      FilePath.exists_join_eq_append directory (isAbsolute_resource h)
    have hdirectory : FileSystem.Usable directory := by
      rw [opened, hjoin] at husable
      exact husable.of_append
    have habsolute : FilePath.isAbsolute (opened directory name) = FilePath.isAbsolute directory :=
      FilePath.isAbsolute_join (isAbsolute_resource h)
    rw [FileSystem.find?_of_usable hdirectory, FileSystem.find?_of_usable hdirectory,
      FileSystem.pieces, FileSystem.pieces] at halike
    rw [FileSystem.find?_of_usable husable, FileSystem.find?_of_usable husable, FileSystem.pieces,
      FileSystem.pieces, habsolute, follow_opened h, follow_opened h, halike]
  · rw [FileSystem.find?_of_not_usable husable, FileSystem.find?_of_not_usable husable]

theorem confined_opened : Confined directory (opened directory name) where
  beneath := beneath_opened h
  walks tree other halike := by rw [walk_opened h, walk_opened h, halike]
  reads system other halike := by
    rw [FileSystem.read?, FileSystem.read?, find?_opened_congr h halike]

end Opened

theorem not_beneath_of_isAbsolute {directory path : String}
    (hdirectory : FilePath.isAbsolute directory = false) (hpath : FilePath.isAbsolute path = true) :
    ¬ Beneath directory path := by
  rintro ⟨names, -, hcomponents⟩
  have hroot := FilePath.root_mem_components hpath
  rw [hcomponents, List.mem_append] at hroot
  rcases hroot with hroot | hroot
  · exact FilePath.root_not_mem_components hdirectory hroot
  · simp at hroot

/-- A directory opens one file for a name, confined to the directory unless the first character of
the name is a dot or a slash. With such a name every directory opens the same file, with an
absolute path. -/
theorem findClass_confined {World Loader : Type} (access : Access World Loader)
    (directory name : String) :
    (Entry.directory directory).findClass access (dotted name) =
        pure (access.read? (opened directory name)) ∧
      (¬ Leading name → Confined directory (opened directory name)) ∧
      (Leading name → opened directory name = resource name ∧
        (FilePath.isAbsolute directory = false → ¬ Beneath directory (opened directory name))) := by
  refine ⟨?_, confined_opened, fun h ↦ ?_⟩
  · rw [Entry.findClass, ClassName.resource_dotted, opened]
  · have habsolute := (ClassName.isAbsolute_resource_iff name).mpr h
    have hopened : opened directory name = resource name := by
      rw [opened, FilePath.join, if_pos habsolute]
    exact ⟨hopened, fun hdirectory ↦
      hopened ▸ not_beneath_of_isAbsolute hdirectory habsolute⟩

/-- A class in a package, and the same name with a dot in front. -/
theorem findClass_confined_package :
    ¬ Leading "p.A" ∧ Confined "classes" (opened "classes" "p.A") ∧
      Leading ".p.A" ∧ opened "classes" ".p.A" = resource ".p.A" := by
  have hpackage : ¬ Leading "p.A" := by decide
  have hleading : Leading ".p.A" := by decide
  let access : Access Unit Empty := ⟨.none, fun loader ↦ loader.elim, fun loader ↦ loader.elim⟩
  exact ⟨hpackage, (findClass_confined access "classes" "p.A").2.1 hpackage, hleading,
    ((findClass_confined access "classes" ".p.A").2.2 hleading).1⟩

theorem not_beneath_rooted :
    opened "classes" "/etc/A" = "/etc/A.class" ∧ ¬ Beneath "classes" (opened "classes" "/etc/A") :=
  ⟨by decide, not_beneath_of_isAbsolute (by decide) (by decide)⟩

end Search

end ClassWeaver
