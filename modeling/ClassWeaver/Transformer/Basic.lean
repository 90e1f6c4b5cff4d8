import ClassWeaver.EditableClass

/-!
Transformers: which classes they want, and how they change one.

`editUnlessFrozen` is the frame of every change. A class that was serialized before is either
left alone or defrosted first; the edit is made as a whole or not at all; and a class that it
changed is serialized.
-/

set_option autoImplicit false
set_option relaxedAutoImplicit false

namespace ClassWeaver

/-- What a transformer does with a frozen class. -/
inductive FrozenPolicy where
  | skip
  | defrost
  deriving DecidableEq, Repr

/-- A way to change classes that may be loaded by a `Loader`. Class names have slashes. -/
structure Transformer (Loader : Type) where
  name : String
  /-- Whether the class could be wanted, whatever loads it. -/
  mayAccept : String → Bool
  accept : Option Loader → String → Bool
  /-- The new bytes of the class, unless it was not changed. -/
  weave : ClassEdit Id (Option Bytes)

/-- Applies `edit`, which tells whether it changed the class. -/
def editUnlessFrozen {m : Type → Type} [Monad m] (policy : FrozenPolicy)
    (edit : ClassEdit m Bool) : ClassEdit m (Option Bytes) := do
  let cls ← ClassEdit.current
  if cls.frozen && policy == .skip then return none
  if cls.frozen then ClassEdit.defrost
  if ← ClassEdit.atomically edit then return some (← ClassEdit.serialize)
  else return none

namespace Transformer

variable {Loader : Type}

/-- A transformer that wants the class called `target`, under any loader. -/
def ofTarget (name target : String) (weave : ClassEdit Id (Option Bytes)) :
    Transformer Loader where
  name
  mayAccept cls := cls == target
  accept _ cls := cls == target
  weave

/-- Whether any transformer of a chain could want the class. -/
def wanted (chain : List (Transformer Loader)) (cls : String) : Bool :=
  chain.any (·.mayAccept cls)

end Transformer

end ClassWeaver
