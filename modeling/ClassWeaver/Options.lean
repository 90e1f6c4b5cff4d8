import ClassWeaver.Search.Entry
import ClassWeaver.Text.Blank
import ClassWeaver.Text.Fields
import ClassWeaver.Transformer.Factory
import ClassWeaver.Transformer.Increment
import ClassWeaver.Transformer.Wrapper

/-!
The options of the agent.

Options are a list of `key=value` items between commas, such as
`log=debug,transformers=field-write+wrap-return,target=com/example/Counter`. Blanks around items,
keys and values do not count, nor do empty items. A text without any `=` or `,` is a log level. A
later item takes the place of an earlier one with the same key, but every `path` adds an entry.
-/

set_option autoImplicit false
set_option relaxedAutoImplicit false

namespace ClassWeaver

inductive LogLevel where
  | off
  | error
  | warn
  | info
  | debug
  | trace
  deriving DecidableEq, Repr

/-- How log levels are spelled, which is left to whoever writes the log. -/
class LevelSpelling where
  level? (text : List Char) : Option LogLevel

/-- The changes of classes that an agent can be asked for. -/
inductive Weaving where
  | increment
  | factory
  | wrapper
  deriving DecidableEq, Repr

/-- What the options call a change. -/
def Weaving.title : Weaving → String
  | increment => "field-write"
  | factory => "replace-new"
  | wrapper => "wrap-return"

inductive OptionError where
  | unknownKey (key : String)
  | invalidValue (key value : String)
  | unknownWeaving (title : String)
  | missing (weaving : Weaving) (key : String)
  deriving DecidableEq, Repr

def OptionError.message : OptionError → String
  | unknownKey key => "unknown agent option '" ++ key ++ "'"
  | invalidValue key value => "invalid value '" ++ value ++ "' for agent option '" ++ key ++ "'"
  | unknownWeaving title => "unknown transformer '" ++ title ++ "'"
  | missing weaving key =>
    "transformer '" ++ weaving.title ++ "' requires the '" ++ key ++ "' option"

/-- A static method that makes or wraps values. -/
structure FactoryMethod where
  owner : String
  method : String
  deriving DecidableEq, Repr

structure Options where
  logLevel : LogLevel
  weavings : List Weaving
  target : Option String
  method : Option String
  increment : Int32
  replace : Option String
  factory : Option FactoryMethod
  paths : List String
  deriving DecidableEq, Repr

/-! ### Values -/

/-- The number that decimal digits spell; no digits spell none. -/
def natural? (digits : List Char) : Option Nat :=
  if digits ≠ [] ∧ digits.all Char.isDigit then
    some (digits.foldl (fun value c ↦ value * 10 + (c.toNat - '0'.toNat)) 0)
  else none

/-- A number with an optional sign, if it fits into 32 bits. -/
def int32? (text : List Char) : Option Int32 := do
  let value : Int ←
    match text with
    | '-' :: digits => (natural? digits).map fun value ↦ -(value : Int)
    | '+' :: digits => (natural? digits).map Int.ofNat
    | digits => (natural? digits).map Int.ofNat
  if -2147483648 ≤ value ∧ value ≤ 2147483647 then some (Int32.ofInt value) else none

def Weaving.ofTitle (title : String) : Except OptionError Weaving :=
  match [increment, factory, wrapper].find? (·.title == title) with
  | some weaving => .ok weaving
  | none => .error (.unknownWeaving title)

/-- A class and a method behind the last dot, neither of them empty. -/
def FactoryMethod.ofText? (text : List Char) : Option FactoryMethod := do
  let (owner, method) ← Text.cutLast '.' text
  if owner = [] ∨ method = [] then none
  else some ⟨String.ofList owner, String.ofList method⟩

/-! ### Items -/

namespace Options

def default : Options where
  logLevel := .info
  weavings := []
  target := none
  method := none
  increment := 2
  replace := none
  factory := none
  paths := []

/-- The value read from an item, or the complaint about it. -/
def valueOf {α : Type} (key : String) (value : List Char) (read : Option α) :
    Except OptionError α :=
  match read with
  | some answer => .ok answer
  | none => .error (.invalidValue key (String.ofList value))

/-- The options with the value of one item. -/
def set [LevelSpelling] (options : Options) (key : String) (value : List Char) :
    Except OptionError Options := do
  match key with
  | "log" =>
    let logLevel ← valueOf key value (LevelSpelling.level? value)
    return { options with logLevel }
  | "transformers" =>
    let titles := (Text.fields '+' value).filter (· ≠ [])
    let weavings ← titles.mapM fun title ↦ Weaving.ofTitle (String.ofList title)
    return { options with weavings }
  | "target" => return { options with target := some (String.ofList value) }
  | "method" => return { options with method := some (String.ofList value) }
  | "increment" => return { options with increment := ← valueOf key value (int32? value) }
  | "replace" => return { options with replace := some (String.ofList value) }
  | "factory" =>
    let factory ← valueOf key value (FactoryMethod.ofText? value)
    return { options with factory := some factory }
  | "path" => return { options with paths := options.paths ++ [String.ofList value] }
  | _ => throw (.unknownKey key)

/-- The options with one item, `key=value`. -/
def setItem [LevelSpelling] (options : Options) (item : List Char) :
    Except OptionError Options :=
  match Text.cutFirst '=' item with
  | none => .error (.unknownKey (String.ofList item))
  | some (key, value) => options.set (String.ofList (Text.trim key)) (Text.trim value)

/-- The items of a text, without blanks around them and without empty ones. -/
def items (text : List Char) : List (List Char) :=
  ((Text.fields ',' text).map Text.trim).filter (· ≠ [])

def parse [LevelSpelling] (text : String) : Except OptionError Options :=
  let text := Text.trim text.toList
  if text = [] then .ok default
  else if text.contains '=' || text.contains ',' then (items text).foldlM setItem default
  else do
    let logLevel ← valueOf "log" text (LevelSpelling.level? text)
    return { default with logLevel }

/-! ### What the options ask for -/

/-- An option that a change cannot do without. -/
def require {α : Type} (weaving : Weaving) (key : String) (value : Option α) :
    Except OptionError α :=
  match value with
  | some value => .ok value
  | none => .error (.missing weaving key)

def transformer {Loader : Type} (options : Options) (weaving : Weaving) :
    Except OptionError (Transformer Loader) := do
  let target ← require weaving "target" options.target
  match weaving with
  | .increment =>
    let method ← require weaving "method" options.method
    return Increment.transformer ⟨target, method, options.increment, .skip⟩
  | .factory =>
    let product ← require weaving "replace" options.replace
    let factory ← require weaving "factory" options.factory
    return Factory.transformer ⟨target, product, factory.owner, factory.method, .skip⟩
  | .wrapper =>
    let method ← require weaving "method" options.method
    let factory ← require weaving "factory" options.factory
    return Wrapper.transformer ⟨target, method, factory.owner, factory.method, .skip⟩

/-- The transformers, in the order in which they are listed. -/
def transformers {Loader : Type} (options : Options) :
    Except OptionError (List (Transformer Loader)) :=
  options.weavings.mapM options.transformer

def searchPath {Loader : Type} (options : Options) : List (Search.Entry Loader) :=
  options.paths.map .ofPath

end Options

end ClassWeaver
