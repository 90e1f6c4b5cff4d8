import ClassWeaver.Failure
import ClassWeaver.Search.Registry

/-!
What the entries of a search path have, and what asking them in order finds.

Building a search path and asking its entries comes down to questions to class loaders. What none
of these changes, looking a class up does not change (`Access.StaysIn`). Files and archives stay
what they are; that class loaders stay what they are while they are asked is an assumption
(`Access.Calm`).
-/

set_option autoImplicit false
set_option relaxedAutoImplicit false

namespace ClassWeaver.Search

variable {World Loader α β : Type}

/-! ### Worlds that no question leaves -/

/-- A question that does not leave `worlds`. -/
def Stays (worlds : World → Prop) (query : StateM World α) : Prop :=
  ∀ world, worlds world → worlds (query.run world).2

theorem stays_pure {worlds : World → Prop} (answer : α) : Stays worlds (pure answer) :=
  fun _ hworld ↦ hworld

theorem Stays.bind {worlds : World → Prop} {query : StateM World α} {next : α → StateM World β}
    (hquery : Stays worlds query) (hnext : ∀ answer, Stays worlds (next answer)) :
    Stays worlds (query >>= next) :=
  fun world hworld ↦ hnext _ _ (hquery world hworld)

/-- No question to a loader leaves `worlds`. -/
structure Access.StaysIn (access : Access World Loader) (worlds : World → Prop) : Prop where
  findResource : ∀ loader resource, Stays worlds (access.findResource loader resource)
  sameLoader : ∀ loader other, Stays worlds (access.sameLoader loader other)

/-- No question leaves the worlds altogether. -/
theorem Access.staysIn_all (access : Access World Loader) : access.StaysIn fun _ ↦ True :=
  ⟨fun _ _ _ _ ↦ trivial, fun _ _ _ _ ↦ trivial⟩

namespace Access.StaysIn

variable {access : Access World Loader} {worlds : World → Prop} (h : access.StaysIn worlds)
include h

theorem findClass (entry : Entry Loader) (name : String) :
    Stays worlds (entry.findClass access name) := by
  cases entry with
  | directory path => exact stays_pure _
  | archive path => exact stays_pure _
  | loader handle => exact h.findResource handle _

theorem hasSame (entry : Entry Loader) (entries : List (Entry Loader)) :
    Stays worlds (Registry.hasSame access entry entries) := by
  have hsame (known : Entry Loader) : Stays worlds (known.same access entry) := by
    unfold Entry.same
    split
    · exact h.sameLoader _ _
    · exact stays_pure _
  induction entries with
  | nil => exact stays_pure _
  | cons known rest ih =>
    refine (hsame known).bind fun found ↦ ?_
    cases found with
    | true => exact stays_pure _
    | false => exact ih

theorem register (side : Side) (entry : Entry Loader) (registry : Registry Loader)
    (path : List (Entry Loader)) : Stays worlds (registry.register access side entry path) := by
  refine (h.hasSame entry _).bind fun found ↦ ?_
  split
  · exact stays_pure _
  · exact stays_pure _

theorem replay (side : Side) (entries : List (Entry Loader)) (registry : Registry Loader)
    (path : List (Entry Loader)) :
    Stays worlds (Registry.replay access side entries registry path) := by
  induction entries generalizing registry path with
  | nil => exact stays_pure _
  | cons entry rest ih =>
    refine (h.register side entry registry path).bind fun added ↦ ?_
    cases added with
    | none => exact ih registry path
    | some after => exact ih after.1 after.2

theorem newPath (registry : Registry Loader) : Stays worlds (registry.newPath access) := by
  unfold Registry.newPath
  split
  · exact (h.replay _ _ _ _).bind fun first ↦ h.replay _ _ _ _
  · exact stays_pure _

end Access.StaysIn

/-! ### Contents that nobody changes -/

/-- What the entries have under each name. -/
abbrev Contents (Loader : Type) := Entry Loader → String → Except Unreadable (Option Bytes)

def Access.contents (access : Access World Loader) (world : World) : Contents Loader :=
  fun entry name ↦ ((entry.findClass access name).run world).1

variable {access : Access World Loader}

/-- The worlds in which the entries have what `contents` says. -/
def Access.Having (access : Access World Loader) (contents : Contents Loader) (world : World) :
    Prop :=
  access.contents world = contents

/-- A question that does not change what any entry has. -/
def Access.Spares (access : Access World Loader) (query : StateM World α) : Prop :=
  ∀ world, access.contents (query.run world).2 = access.contents world

/-- Loaders can be asked without a change of what they have. -/
structure Access.Calm (access : Access World Loader) : Prop where
  findResource : ∀ loader resource, access.Spares (access.findResource loader resource)
  sameLoader : ∀ loader other, access.Spares (access.sameLoader loader other)

theorem Access.Having.spares {contents : Contents Loader} {world : World}
    (h : access.Having contents world) {query : StateM World α} (hquery : access.Spares query) :
    access.Having contents (query.run world).2 :=
  (hquery world).trans h

theorem spares_iff {query : StateM World α} :
    access.Spares query ↔ ∀ contents, Stays (access.Having contents) query := by
  constructor
  · intro h contents world hworld
    exact hworld.spares h
  · intro h world
    exact h (access.contents world) world rfl

theorem Access.Calm.staysIn (h : access.Calm) (contents : Contents Loader) :
    access.StaysIn (access.Having contents) where
  findResource loader resource := spares_iff.mp (h.findResource loader resource) contents
  sameLoader loader other := spares_iff.mp (h.sameLoader loader other) contents

theorem Access.Calm.findClass (h : access.Calm) (entry : Entry Loader) (name : String) :
    access.Spares (entry.findClass access name) :=
  spares_iff.mpr fun contents ↦ (h.staysIn contents).findClass entry name

theorem Access.Calm.register (h : access.Calm) (side : Side) (entry : Entry Loader)
    (registry : Registry Loader) (path : List (Entry Loader)) :
    access.Spares (registry.register access side entry path) :=
  spares_iff.mpr fun contents ↦ (h.staysIn contents).register side entry registry path

theorem Access.Calm.newPath (h : access.Calm) (registry : Registry Loader) :
    access.Spares (registry.newPath access) :=
  spares_iff.mpr fun contents ↦ (h.staysIn contents).newPath registry

/-- Nothing but the entry itself is added to a search path. -/
theorem Registry.register_eq_some {side : Side} {entry : Entry Loader}
    {registry later : Registry Loader} {path longer : List (Entry Loader)} {world : World}
    (h : ((registry.register access side entry path).run world).1 = some (later, longer)) :
    later = registry.add side entry ∧ longer = place side entry path := by
  let asked := (hasSame access entry (registry.recorded side)).run world
  change ((if asked.1 = true then pure none
    else pure (some (registry.add side entry, place side entry path)) :
      StateM World _).run asked.2).1 = _ at h
  split at h
  · cases h
  · cases h
    exact ⟨rfl, rfl⟩

/-! ### The first entry to have a class -/

/-- What asking the entries of a path in order finds. -/
def found (contents : Contents Loader) (name : String) :
    List (Entry Loader) → Except Failure (Option Bytes)
  | [] => .ok none
  | entry :: rest =>
    match contents entry name with
    | .error _ => .error (.unreadable name)
    | .ok (some bytes) => .ok (some bytes)
    | .ok none => found contents name rest

/-- The first entry of the path that has a class called `name` has it as `bytes`. -/
def FirstToHave (contents : Contents Loader) (path : List (Entry Loader)) (name : String)
    (bytes : Bytes) : Prop :=
  ∃ front entry back, path = front ++ entry :: back ∧
    (∀ other ∈ front, contents other name = .ok none) ∧ contents entry name = .ok (some bytes)

variable {contents : Contents Loader} {path : List (Entry Loader)} {name : String} {bytes : Bytes}

theorem found_eq_some_iff :
    found contents name path = .ok (some bytes) ↔ FirstToHave contents path name bytes := by
  constructor
  · intro h
    induction path with
    | nil => simp [found] at h
    | cons entry rest ih =>
      rw [found] at h
      split at h
      · cases h
      · rename_i other hentry
        cases h
        exact ⟨[], entry, rest, rfl, fun _ hmem ↦ absurd hmem List.not_mem_nil, hentry⟩
      · rename_i hentry
        obtain ⟨front, first, back, rfl, hfront, hfirst⟩ := ih h
        exact ⟨entry :: front, first, back, rfl,
          List.forall_mem_cons.mpr ⟨hentry, hfront⟩, hfirst⟩
  · rintro ⟨front, entry, back, rfl, hfront, hentry⟩
    induction front with
    | nil => rw [List.nil_append, found, hentry]
    | cons other front ih =>
      obtain ⟨hother, hfront⟩ := List.forall_mem_cons.mp hfront
      rw [List.cons_append, found, hother]
      exact ih hfront

theorem FirstToHave.append (h : FirstToHave contents path name bytes)
    (more : List (Entry Loader)) : FirstToHave contents (path ++ more) name bytes := by
  obtain ⟨front, entry, back, rfl, hfront, hentry⟩ := h
  exact ⟨front, entry, back ++ more, by simp, hfront, hentry⟩

end ClassWeaver.Search
