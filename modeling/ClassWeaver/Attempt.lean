/-!
Changes that may stop half way.

An attempt is the value as far as the change went, together with the failure that stopped it.
Changes of parts are made in order, and nothing behind a failure is touched.
-/

set_option autoImplicit false
set_option relaxedAutoImplicit false

namespace ClassWeaver

structure Attempt (ε α : Type) where
  value : α
  failure : Option ε

namespace Attempt

variable {ε α β : Type}

def done (value : α) : Attempt ε α :=
  ⟨value, none⟩

/-- Puts a computed part into the value, which stays as it is if there is no such part. -/
def update (value : α) (part : Except ε β) (put : β → α) : Attempt ε α :=
  match part with
  | .ok part => ⟨put part, none⟩
  | .error failure => ⟨value, some failure⟩

/-- Goes on with `next` unless the attempt was stopped. -/
def andThen (attempt : Attempt ε α) (next : α → Attempt ε α) : Attempt ε α :=
  match attempt.failure with
  | some _ => attempt
  | none => next attempt.value

/-- The attempt on a part, seen as one on the whole. -/
def within (attempt : Attempt ε α) (put : α → β) : Attempt ε β :=
  ⟨put attempt.value, attempt.failure⟩

/-- Changes the items of a list from the first to the last. -/
def each (change : α → Attempt ε α) : List α → Attempt ε (List α)
  | [] => done []
  | item :: rest =>
    let changed := change item
    match changed.failure with
    | some failure => ⟨changed.value :: rest, some failure⟩
    | none => (each change rest).within (changed.value :: ·)

end Attempt

end ClassWeaver
