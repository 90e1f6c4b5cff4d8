import ClassWeaver.Options
import ClassWeaver.Proofs.Attempt
import ClassWeaver.Proofs.Text.Fields
import ClassWeaver.Surroundings
import Mathlib.Data.List.Induction

/-!
Options that are put together: what the later ones override.

An item is read into a setting whatever options there are before it, and the settings take effect
one after the other (`parse_eq_map`). So a text of options overrides those in front of it, key by
key, and adds its paths to theirs (`applyAll_eq_overriddenBy`). The main result says so of texts
with a comma between them, with what follows from it for blanks, empty items, repeated keys and the
order of items (`parse_append_comma`). However log levels are spelled makes no difference to that.
-/

set_option autoImplicit false
set_option relaxedAutoImplicit false

namespace ClassWeaver.Options

open Text

/-! ### Settings -/

/-- The keys that there are. -/
def known : List String :=
  ["log", "transformers", "target", "method", "increment", "replace", "factory", "path"]

/-- What a single item sets. -/
inductive Setting where
  | logLevel (level : LogLevel)
  | weavings (asked : List Weaving)
  | target (name : String)
  | method (name : String)
  | increment (value : Int32)
  | replace (product : String)
  | factory (maker : FactoryMethod)
  | path (entry : String)

namespace Setting

/-- The key of the items that set this. -/
def key : Setting → String
  | logLevel _ => "log"
  | weavings _ => "transformers"
  | target _ => "target"
  | method _ => "method"
  | increment _ => "increment"
  | replace _ => "replace"
  | factory _ => "factory"
  | path _ => "path"

/-- The options with the setting. A path is added to the others; anything else takes the place of
what there was. -/
def apply (options : Options) : Setting → Options
  | logLevel level => { options with logLevel := level }
  | weavings asked => { options with weavings := asked }
  | target name => { options with target := some name }
  | method name => { options with method := some name }
  | increment value => { options with increment := value }
  | replace product => { options with replace := some product }
  | factory maker => { options with factory := some maker }
  | path entry => { options with paths := options.paths ++ [entry] }

section

variable [LevelSpelling]

/-- The setting that a value stands for under a key. -/
def ofValue (key : String) (value : List Char) : Except OptionError Setting :=
  match key with
  | "log" => (valueOf key value (LevelSpelling.level? value)).map logLevel
  | "transformers" =>
    let titles := (fields '+' value).filter (· ≠ [])
    (titles.mapM fun title ↦ Weaving.ofTitle (String.ofList title)).map weavings
  | "target" => .ok (target (String.ofList value))
  | "method" => .ok (method (String.ofList value))
  | "increment" => (valueOf key value (int32? value)).map increment
  | "replace" => .ok (replace (String.ofList value))
  | "factory" => (valueOf key value (FactoryMethod.ofText? value)).map factory
  | "path" => .ok (path (String.ofList value))
  | _ => .error (.unknownKey key)

/-- The setting that an item stands for. -/
def ofItem (item : List Char) : Except OptionError Setting :=
  match cutFirst '=' item with
  | none => .error (.unknownKey (String.ofList item))
  | some (key, value) => ofValue (String.ofList (trim key)) (trim value)

theorem ofValue_of_unknown {key : String} (h : key ∉ known) (value : List Char) :
    ofValue key value = .error (.unknownKey key) := by
  unfold ofValue
  split
  case h_9 => rfl
  all_goals exact absurd (by decide) h

theorem key_of_ofValue {key : String} {value : List Char} {setting : Setting}
    (h : ofValue key value = .ok setting) : setting.key = key := by
  have hmap {α : Type} {read : Except OptionError α} {make : α → Setting}
      (hread : read.map make = .ok setting) : ∃ answer, setting = make answer := by
    cases read with
    | error fault => cases hread
    | ok answer => exact ⟨answer, (Except.ok.inj hread).symm⟩
  unfold ofValue at h
  split at h
  case h_1 | h_2 | h_5 | h_7 =>
    obtain ⟨answer, rfl⟩ := hmap h
    rfl
  case h_9 => cases h
  all_goals
    cases h
    rfl

end

end Setting

/-- The options with settings, one after the other. -/
def applyAll (settings : List Setting) (options : Options) : Options :=
  settings.foldl Setting.apply options

section

variable [LevelSpelling]

/-- The settings that items stand for, or the complaint about the first item that stands for
none. -/
def settings (items : List (List Char)) : Except OptionError (List Setting) :=
  items.mapM Setting.ofItem

theorem set_of_unknown {key : String} (h : key ∉ known) (options : Options)
    (value : List Char) : options.set key value = .error (.unknownKey key) := by
  unfold set
  split
  case h_9 => rfl
  all_goals exact absurd (by decide) h

theorem set_eq_map (options : Options) (key : String) (value : List Char) :
    options.set key value = (Setting.ofValue key value).map (Setting.apply options) := by
  have hmap {α : Type} (read : Except OptionError α) (make : α → Setting) (put : α → Options)
      (hput : ∀ answer, (make answer).apply options = put answer) :
      (read >>= fun answer ↦ pure (put answer)) = (read.map make).map (Setting.apply options) := by
    cases read with
    | error fault => rfl
    | ok answer => exact congrArg Except.ok (hput answer).symm
  by_cases hknown : key ∈ known
  · simp only [known, List.mem_cons, List.not_mem_nil, or_false] at hknown
    rcases hknown with rfl | rfl | rfl | rfl | rfl | rfl | rfl | rfl
    case inl | inr.inl | inr.inr.inr.inr.inl | inr.inr.inr.inr.inr.inr.inl =>
      exact hmap _ _ _ fun _ ↦ rfl
    all_goals rfl
  · rw [set_of_unknown hknown, Setting.ofValue_of_unknown hknown]
    rfl

theorem setItem_eq_map (options : Options) (item : List Char) :
    options.setItem item = (Setting.ofItem item).map (Setting.apply options) := by
  rw [setItem, Setting.ofItem]
  cases cutFirst '=' item with
  | none => rfl
  | some parts => exact set_eq_map _ _ _

theorem foldlM_setItem (items : List (List Char)) (options : Options) :
    items.foldlM setItem options = (settings items).map fun found ↦ applyAll found options := by
  induction items generalizing options with
  | nil => rfl
  | cons item rest ih =>
    rw [List.foldlM_cons, setItem_eq_map, settings, List.mapM_cons]
    cases Setting.ofItem item with
    | error fault => rfl
    | ok setting =>
      refine (ih (setting.apply options)).trans ?_
      change (settings rest).map _ = (settings rest >>= fun later ↦ pure (setting :: later)).map _
      cases settings rest with
      | error fault => rfl
      | ok later => rfl

end

/-! ### Texts of items -/

/-- The text is a list of items, and not a log level alone. -/
def Itemized (text : String) : Prop :=
  '=' ∈ text.toList ∨ ',' ∈ text.toList

instance (text : String) : Decidable (Itemized text) :=
  inferInstanceAs (Decidable (_ ∨ _))

theorem items_append_comma (left right : List Char) :
    items (left ++ ',' :: right) = items left ++ items right := by
  rw [items, fields_append_cons, List.map_append, List.filter_append, items, items]

theorem items_append {left right : String} :
    items (left ++ "," ++ right).toList = items left.toList ++ items right.toList := by
  rw [String.toList_append, String.toList_append, List.append_assoc]
  exact items_append_comma _ _

theorem itemized_append (left right : String) : Itemized (left ++ "," ++ right) := by
  right
  rw [String.toList_append, String.toList_append]
  exact List.mem_append_left _ (List.mem_append_right _ (List.mem_singleton_self ','))

theorem items_of_not_mem {text : List Char} (h : ',' ∉ text) :
    items text = [trim text].filter (· ≠ []) := by
  rw [items, fields_of_not_mem h, List.map_singleton]

theorem items_of_blank {text : List Char} (h : Blank text) : items text = [] := by
  rw [items_of_not_mem (h.not_mem (by decide)), trim_of_blank h]
  rfl

theorem items_append_left {left : List Char} (h : Blank left) (text : List Char) :
    items (left ++ text) = items text := by
  have hcomma : ',' ∉ left := h.not_mem (by decide)
  by_cases hmem : ',' ∈ text
  · obtain ⟨first, rest, rfl, hfirst⟩ := List.eq_append_cons_of_mem hmem
    have hleft : ',' ∉ left ++ first := fun hin ↦ (List.mem_append.mp hin).elim hcomma hfirst
    rw [← List.append_assoc, items_append_comma, items_append_comma, items_of_not_mem hleft,
      items_of_not_mem hfirst, trim_append_left h]
  · have hall : ',' ∉ left ++ text := fun hin ↦ (List.mem_append.mp hin).elim hcomma hmem
    rw [items_of_not_mem hall, items_of_not_mem hmem, trim_append_left h]

theorem items_append_right (text : List Char) {right : List Char} (h : Blank right) :
    items (text ++ right) = items text := by
  have hcomma : ',' ∉ right := h.not_mem (by decide)
  by_cases hmem : ',' ∈ text
  · obtain ⟨before, last, rfl, hlast⟩ := exists_last_field hmem
    have hright : ',' ∉ last ++ right := fun hin ↦ (List.mem_append.mp hin).elim hlast hcomma
    rw [List.append_assoc, List.cons_append, items_append_comma, items_append_comma,
      items_of_not_mem hright, items_of_not_mem hlast, trim_append_right _ h]
  · have hall : ',' ∉ text ++ right := fun hin ↦ (List.mem_append.mp hin).elim hmem hcomma
    rw [items_of_not_mem hall, items_of_not_mem hmem, trim_append_right _ h]

theorem items_trim (text : List Char) : items (trim text) = items text := by
  obtain ⟨left, right, hleft, hright, htext⟩ := eq_append_trim text
  conv => rhs; rw [htext]
  rw [items_append_right _ hright, items_append_left hleft]

section

variable [LevelSpelling]

/-- The settings of a list of items take effect one after the other. -/
theorem parse_eq_map {text : String} (h : Itemized text) :
    parse text = (settings (items text.toList)).map fun found ↦ applyAll found default := by
  have hmarks : '=' ∈ trim text.toList ∨ ',' ∈ trim text.toList :=
    h.imp (mem_trim_iff (by decide)).mpr (mem_trim_iff (by decide)).mpr
  have hne : trim text.toList ≠ [] := by
    rintro hnil
    rw [hnil] at hmarks
    simp at hmarks
  rw [parse, if_neg hne, if_pos (by simpa using hmarks), foldlM_setItem, items_trim]

/-- Blanks around a whole text do not count, whatever kind of text it is. -/
theorem parse_of_trim_eq {text other : String} (h : trim text.toList = trim other.toList) :
    parse text = parse other := by
  rw [parse, parse, h]

end

/-! ### Keys and what they override -/

/-- The key of an item, if it has one. -/
def keyOf? (item : List Char) : Option String :=
  (cutFirst '=' item).map fun (key, _) ↦ String.ofList (trim key)

/-- The keys that a text mentions. -/
def keys (text : String) : List String :=
  (items text.toList).filterMap keyOf?

/-- The options with those later ones that the keys mention in their place. The paths of both
stay. -/
def overriddenBy (options later : Options) (keys : List String) : Options where
  logLevel := if "log" ∈ keys then later.logLevel else options.logLevel
  weavings := if "transformers" ∈ keys then later.weavings else options.weavings
  target := if "target" ∈ keys then later.target else options.target
  method := if "method" ∈ keys then later.method else options.method
  increment := if "increment" ∈ keys then later.increment else options.increment
  replace := if "replace" ∈ keys then later.replace else options.replace
  factory := if "factory" ∈ keys then later.factory else options.factory
  paths := options.paths ++ later.paths

theorem keyOf?_of_ofItem [LevelSpelling] {item : List Char} {setting : Setting}
    (h : Setting.ofItem item = .ok setting) : keyOf? item = some setting.key := by
  rw [Setting.ofItem] at h
  rw [keyOf?]
  split at h
  · cases h
  · rename_i key value hcut
    rw [hcut, Setting.key_of_ofValue h]
    rfl

theorem filterMap_keyOf? [LevelSpelling] {items : List (List Char)} {found : List Setting}
    (h : settings items = .ok found) : items.filterMap keyOf? = found.map Setting.key := by
  have hall := forall₂_of_mapM_eq_ok h
  clear h
  induction hall with
  | nil => rfl
  | cons hitem _ ih => rw [List.filterMap_cons, keyOf?_of_ofItem hitem, ih, List.map_cons]

/-- A setting among the later options is mentioned there. -/
theorem overriddenBy_apply (options later : Options) (keys : List String) (setting : Setting) :
    options.overriddenBy (setting.apply later) (keys ++ [setting.key]) =
      setting.apply (options.overriddenBy later keys) := by
  cases setting <;> simp [Setting.apply, Setting.key, overriddenBy]

/-- A setting that is mentioned later makes no difference, unless it is a path. -/
theorem apply_overriddenBy {setting : Setting} {keys : List String} (hkey : setting.key ∈ keys)
    (hpath : setting.key ≠ "path") (options later : Options) :
    (setting.apply options).overriddenBy later keys = options.overriddenBy later keys := by
  cases setting with
  | path entry => exact absurd rfl hpath
  | _ =>
    rw [Setting.key] at hkey
    simp [Setting.apply, overriddenBy, hkey]

theorem apply_comm {first second : Setting} (h : first.key ≠ second.key) (options : Options) :
    first.apply (second.apply options) = second.apply (first.apply options) := by
  cases first <;> cases second <;> first | rfl | exact absurd rfl h

theorem overriddenBy_nil (options : Options) : options.overriddenBy default [] = options := by
  simp [overriddenBy, default]

/-- Settings override the options that they are put behind, by their keys. -/
theorem applyAll_eq_overriddenBy (found : List Setting) (options : Options) :
    applyAll found options =
      options.overriddenBy (applyAll found default) (found.map Setting.key) := by
  induction found using List.reverseRecOn with
  | nil => exact (overriddenBy_nil options).symm
  | append_singleton earlier setting ih =>
    have hlast (options : Options) :
        applyAll (earlier ++ [setting]) options = setting.apply (applyAll earlier options) := by
      rw [applyAll, applyAll, List.foldl_append, List.foldl_cons, List.foldl_nil]
    rw [hlast, hlast, ih, List.map_append, List.map_singleton, overriddenBy_apply]

/-- Settings that are all mentioned later, and none of which is a path, make no difference. -/
theorem applyAll_of_mentioned {found later : List Setting}
    (h : ∀ setting ∈ found, setting.key ≠ "path" ∧ setting.key ∈ later.map Setting.key)
    (options : Options) : applyAll later (applyAll found options) = applyAll later options := by
  induction found generalizing options with
  | nil => rfl
  | cons setting rest ih =>
    obtain ⟨⟨hpath, hkey⟩, hrest⟩ := List.forall_mem_cons.mp h
    calc applyAll later (applyAll (setting :: rest) options)
      _ = applyAll later (setting.apply options) := ih hrest _
      _ = (setting.apply options).overriddenBy _ _ := applyAll_eq_overriddenBy later _
      _ = options.overriddenBy _ _ := apply_overriddenBy hkey hpath _ _
      _ = applyAll later options := (applyAll_eq_overriddenBy later options).symm

theorem apply_applyAll {setting : Setting} {found : List Setting}
    (h : ∀ other ∈ found, setting.key ≠ other.key) (options : Options) :
    setting.apply (applyAll found options) = applyAll found (setting.apply options) := by
  induction found generalizing options with
  | nil => rfl
  | cons other rest ih =>
    obtain ⟨hother, hrest⟩ := List.forall_mem_cons.mp h
    calc setting.apply (applyAll (other :: rest) options)
      _ = applyAll rest (setting.apply (other.apply options)) := ih hrest _
      _ = applyAll rest (other.apply (setting.apply options)) := by rw [apply_comm hother]

/-- Settings with different keys can be exchanged. -/
theorem applyAll_comm {first second : List Setting}
    (h : ∀ setting ∈ first, ∀ other ∈ second, setting.key ≠ other.key) (options : Options) :
    applyAll first (applyAll second options) = applyAll second (applyAll first options) := by
  induction first generalizing options with
  | nil => rfl
  | cons setting rest ih =>
    obtain ⟨hsetting, hrest⟩ := List.forall_mem_cons.mp h
    calc applyAll (setting :: rest) (applyAll second options)
      _ = applyAll rest (applyAll second (setting.apply options)) :=
        congrArg (applyAll rest) (apply_applyAll hsetting options)
      _ = applyAll second (applyAll (setting :: rest) options) := ih hrest _

/-! ### What items do to options -/

section

variable [LevelSpelling]

/-- What items do to the options in front of them. -/
def effect (items : List (List Char)) : Except OptionError (Options → Options) :=
  (settings items).map applyAll

theorem effect_append (left right : List (List Char)) :
    effect (left ++ right) = do
      let first ← effect left
      let second ← effect right
      return fun options ↦ second (first options) := by
  rw [effect, settings, List.mapM_append]
  change (settings left >>= fun first ↦ settings right >>= fun second ↦ _).map applyAll = _
  rw [effect, effect]
  cases settings left with
  | error fault => rfl
  | ok first =>
    cases settings right with
    | error fault => rfl
    | ok second => exact congrArg Except.ok (funext fun options ↦ List.foldl_append)

/-- Items that do the same can stand for each other among others. -/
theorem effect_between {middle other : List (List Char)} (h : effect middle = effect other)
    (before after : List (List Char)) :
    effect (before ++ (middle ++ after)) = effect (before ++ (other ++ after)) := by
  rw [effect_append, effect_append middle, h, ← effect_append other, ← effect_append]

theorem parse_eq_effect {text : String} (h : Itemized text) :
    parse text = (effect (items text.toList)).map fun change ↦ change default := by
  rw [parse_eq_map h, effect]
  cases settings (items text.toList) with
  | error fault => rfl
  | ok found => rfl

theorem parse_eq_of_effect {text other : String} (htext : Itemized text) (hother : Itemized other)
    (h : effect (items text.toList) = effect (items other.toList)) : parse text = parse other := by
  rw [parse_eq_effect htext, parse_eq_effect hother, h]

/-- A list of items none of which is complained about. -/
def Accepted (text : String) : Prop :=
  Itemized text ∧ ∃ options, parse text = .ok options

theorem Accepted.exists_settings {text : String} (h : Accepted text) :
    ∃ found, settings (items text.toList) = .ok found ∧ keys text = found.map Setting.key := by
  obtain ⟨hitems, options, hoptions⟩ := h
  rw [parse_eq_map hitems] at hoptions
  cases hfound : settings (items text.toList) with
  | error fault =>
    rw [hfound] at hoptions
    cases hoptions
  | ok found => exact ⟨found, rfl, filterMap_keyOf? hfound⟩

/-- What is mentioned again behind them, accepted items need not say. -/
theorem effect_of_mentioned {first : String} (hfirst : Accepted first) {later : List (List Char)}
    (h : ∀ key ∈ keys first, key ≠ "path" ∧ key ∈ later.filterMap keyOf?) :
    effect (items first.toList ++ later) = effect later := by
  obtain ⟨found, hfound, hkeys⟩ := hfirst.exists_settings
  rw [hkeys] at h
  rw [effect_append, effect, effect, hfound]
  cases hlater : settings later with
  | error fault => rfl
  | ok others =>
    rw [filterMap_keyOf? hlater] at h
    exact congrArg Except.ok (funext fun options ↦ applyAll_of_mentioned
      (fun setting hmem ↦ h _ (List.mem_map_of_mem hmem)) options)

/-- Accepted items with different keys do the same in either order. -/
theorem effect_comm {first second : String} (hfirst : Accepted first) (hsecond : Accepted second)
    (h : ∀ key ∈ keys first, key ∉ keys second) :
    effect (items first.toList ++ items second.toList) =
      effect (items second.toList ++ items first.toList) := by
  obtain ⟨found, hfound, hkeys⟩ := hfirst.exists_settings
  obtain ⟨others, hothers, hotherKeys⟩ := hsecond.exists_settings
  rw [hkeys, hotherKeys] at h
  rw [effect_append, effect_append, effect, effect, hfound, hothers]
  refine congrArg Except.ok (funext fun options ↦ (applyAll_comm ?_ options).symm)
  intro setting hmem other hother heq
  exact h _ (List.mem_map_of_mem hmem) (heq ▸ List.mem_map_of_mem hother)

/-! ### Putting texts together -/

/-- An item that is written with a key and a value sets what they stand for, without the blanks
around them. -/
theorem settings_pair {key value : List Char} (hmark : '=' ∉ key) (hkey : ',' ∉ key)
    (hvalue : ',' ∉ value) :
    settings (items (key ++ '=' :: value)) =
      (Setting.ofValue (String.ofList (trim key)) (trim value)).map fun setting ↦ [setting] := by
  have hcomma : ',' ∉ key ++ '=' :: value := by simp [hkey, hvalue]
  have hfront : '=' ∉ key.dropWhile isBlank := fun hmem ↦
    hmark ((List.dropWhile_sublist _).subset hmem)
  rw [items_of_not_mem hcomma, trim_append_cons (by decide), List.filter_cons_of_pos (by simp),
    List.filter_nil, settings, List.mapM_cons, List.mapM_nil, Setting.ofItem,
    cutFirst_append_cons hfront]
  dsimp only
  rw [trim_dropWhile, trim_trimEnd]
  cases Setting.ofValue (String.ofList (trim key)) (trim value) with
  | error fault => rfl
  | ok setting => rfl

/-- Texts that differ in blanks and in empty items only. -/
inductive Respelled : String → String → Prop
  /-- Blanks around the whole text. -/
  | around (left text right : String) (hleft : Blank left.toList) (hright : Blank right.toList) :
    Respelled (left ++ text ++ right) text
  /-- Blanks on both sides of a comma. -/
  | comma (before left right after : String) (hleft : Blank left.toList)
    (hright : Blank right.toList) :
    Respelled ((before ++ left) ++ "," ++ (right ++ after)) (before ++ "," ++ after)
  /-- Blanks on both sides of the mark between a key and its value. -/
  | mark (before key left right value after : String) (hleft : Blank left.toList)
    (hright : Blank right.toList) (hmark : '=' ∉ key.toList) (hkey : ',' ∉ key.toList)
    (hvalue : ',' ∉ value.toList) :
    Respelled (before ++ "," ++ (key ++ left ++ "=" ++ (right ++ value)) ++ "," ++ after)
      (before ++ "," ++ (key ++ "=" ++ value) ++ "," ++ after)
  /-- An item between others that is empty. -/
  | between (before empty after : String) (hempty : Blank empty.toList) :
    Respelled (before ++ "," ++ empty ++ "," ++ after) (before ++ "," ++ after)
  /-- An empty item in front. -/
  | front (empty text : String) (hempty : Blank empty.toList) (htext : Itemized text) :
    Respelled (empty ++ "," ++ text) text
  /-- An empty item at the end. -/
  | back (text empty : String) (htext : Itemized text) (hempty : Blank empty.toList) :
    Respelled (text ++ "," ++ empty) text

theorem parse_of_respelled {text other : String} (h : Respelled text other) :
    parse text = parse other := by
  cases h with
  | around left _ right hleft hright =>
    refine parse_of_trim_eq ?_
    rw [String.toList_append, String.toList_append, trim_append_right _ hright,
      trim_append_left hleft]
  | comma before left right after hleft hright =>
    refine parse_eq_of_effect (itemized_append _ _) (itemized_append _ _) (congrArg effect ?_)
    rw [items_append, items_append, String.toList_append, String.toList_append,
      items_append_right _ hleft, items_append_left hright]
  | mark before key left right value after hleft hright hmark hkey hvalue =>
    have hcomma {blank : String} (hblank : Blank blank.toList) : ',' ∉ blank.toList :=
      hblank.not_mem (by decide)
    have hpair : settings (items (key ++ left ++ "=" ++ (right ++ value)).toList) =
        settings (items (key ++ "=" ++ value).toList) := by
      have hkeyLeft : '=' ∉ (key ++ left).toList ∧ ',' ∉ (key ++ left).toList := by
        simp [hmark, hkey, hcomma hleft, hleft.not_mem (c := '=') (by decide)]
      have hrightValue : ',' ∉ (right ++ value).toList := by
        simp [hvalue, hcomma hright]
      have hsplit (name text : String) :
          (name ++ "=" ++ text).toList = name.toList ++ '=' :: text.toList := by
        rw [String.toList_append, String.toList_append, List.append_assoc]
        rfl
      rw [hsplit, hsplit, settings_pair hkeyLeft.1 hkeyLeft.2 hrightValue,
        settings_pair hmark hkey hvalue, String.toList_append, String.toList_append,
        trim_append_right _ hleft, trim_append_left hright]
    refine parse_eq_of_effect (itemized_append _ _) (itemized_append _ _) ?_
    have heffect : effect (items (key ++ left ++ "=" ++ (right ++ value)).toList) =
        effect (items (key ++ "=" ++ value).toList) := by
      rw [effect, effect, hpair]
    simp only [items_append, List.append_assoc (items before.toList)]
    exact effect_between heffect _ _
  | between before empty after hempty =>
    refine parse_eq_of_effect (itemized_append _ _) (itemized_append _ _) (congrArg effect ?_)
    rw [items_append, items_append, items_append, items_of_blank hempty, List.append_nil]
  | front empty _ hempty htext =>
    refine parse_eq_of_effect (itemized_append _ _) htext (congrArg effect ?_)
    rw [items_append, items_of_blank hempty, List.nil_append]
  | back _ empty htext hempty =>
    refine parse_eq_of_effect (itemized_append _ _) htext (congrArg effect ?_)
    rw [items_append, items_of_blank hempty, List.append_nil]

/-- Options that are put together with a comma override each other: the first complaint wins, every
option but the paths has its later value if it is mentioned later, and the paths are those of both.
So texts that differ in blanks and empty items only say the same, options that are mentioned again
need not have been, and items with different keys can be exchanged. -/
theorem parse_append_comma :
    (∀ first second : String, Itemized first → Itemized second →
      parse (first ++ "," ++ second) = do
        let options ← parse first
        let later ← parse second
        return options.overriddenBy later (keys second)) ∧
    (∀ text other : String, Respelled text other → parse text = parse other) ∧
    (∀ before first second after : String, Accepted first →
      (∀ key ∈ keys first, key ≠ "path" ∧ key ∈ keys second) →
        parse (before ++ "," ++ first ++ "," ++ second ++ "," ++ after) =
          parse (before ++ "," ++ second ++ "," ++ after)) ∧
    (∀ before first second after : String, Accepted first → Accepted second →
      (∀ key ∈ keys first, key ∉ keys second) →
        parse (before ++ "," ++ first ++ "," ++ second ++ "," ++ after) =
          parse (before ++ "," ++ second ++ "," ++ first ++ "," ++ after)) := by
  refine ⟨fun first second hfirst hsecond ↦ ?_, fun _ _ ↦ parse_of_respelled, ?_, ?_⟩
  · rw [parse_eq_map (itemized_append _ _), parse_eq_map hfirst, parse_eq_map hsecond, items_append,
      settings, List.mapM_append, keys]
    change (settings (items first.toList) >>= fun found ↦
      settings (items second.toList) >>= fun others ↦ _).map _ = _
    cases settings (items first.toList) with
    | error fault => rfl
    | ok found =>
      cases hothers : settings (items second.toList) with
      | error fault => rfl
      | ok others =>
        rw [filterMap_keyOf? hothers]
        refine congrArg Except.ok (List.foldl_append.trans ?_)
        exact applyAll_eq_overriddenBy others (applyAll found default)
  · intro before first second after hfirst hagain
    have hmentioned : ∀ key ∈ keys first, key ≠ "path" ∧
        key ∈ (items second.toList ++ items after.toList).filterMap keyOf? := fun key hkey ↦
      (hagain key hkey).imp_right fun hmem ↦ by
        rw [List.filterMap_append]
        exact List.mem_append_left _ hmem
    refine parse_eq_of_effect (itemized_append _ _) (itemized_append _ _) ?_
    simp only [items_append, List.append_assoc]
    rw [effect_append, effect_of_mentioned hfirst hmentioned, ← effect_append]
  · intro before first second after hfirst hsecond hkeys
    refine parse_eq_of_effect (itemized_append _ _) (itemized_append _ _) ?_
    simp only [items_append, List.append_assoc (items before.toList)]
    exact effect_between (effect_comm hfirst hsecond hkeys) _ _

end

/-- A later level takes the place of an earlier one, and of two paths both stay. -/
theorem parse_append_comma_levels :
    parse ("log=debug,path=/a" ++ "," ++ " log = trace,path=/b") =
        .ok { default with logLevel := .trace, paths := ["/a", "/b"] } ∧
      parse ("path=/a" ++ "," ++ "log=debug" ++ "," ++ "log=trace" ++ "," ++ "") =
        parse ("path=/a" ++ "," ++ "log=trace" ++ "," ++ "") ∧
      parse ("" ++ "," ++ "log=debug" ++ "," ++ "increment=3" ++ "," ++ "") =
        parse ("" ++ "," ++ "increment=3" ++ "," ++ "log=debug" ++ "," ++ "") ∧
      parse (" " ++ "debug" ++ " ") = parse "debug" := by
  have hfirst : parse "log=debug,path=/a" =
      .ok { default with logLevel := .debug, paths := ["/a"] } := rfl
  have hsecond : parse " log = trace,path=/b" =
      .ok { default with logLevel := .trace, paths := ["/b"] } := rfl
  have hlevel : Accepted "log=debug" := ⟨by decide, _, rfl⟩
  have hnumber : Accepted "increment=3" := ⟨by decide, _, rfl⟩
  obtain ⟨hput, hrespelled, hmentioned, hexchanged⟩ := parse_append_comma
  refine ⟨?_, hmentioned _ _ _ _ hlevel (by decide), hexchanged _ _ _ _ hlevel hnumber (by decide),
    hrespelled _ _ (.around " " "debug" " " (by decide) (by decide))⟩
  rw [hput _ _ (by decide) (by decide), hfirst, hsecond]
  rfl

end ClassWeaver.Options
