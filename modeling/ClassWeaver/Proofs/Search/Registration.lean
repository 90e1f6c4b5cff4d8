import ClassWeaver.Search.Registry

/-!
Recording entries of a search path, where it is settled which entries stand for the same thing.

Which files two entries are is settled by their paths, but class loaders are asked. As long as they
answer alike (`Access.Discerns`), a record without repetitions stays one, and replaying it gives
each of its entries to the new path, in the same order as before.
-/

set_option autoImplicit false
set_option relaxedAutoImplicit false

namespace ClassWeaver.Search

variable {World Loader α β : Type} {worlds : World → Prop}

/-! ### Questions that are always answered alike -/

/-- Asked in any of `worlds`, it gives that answer and does not leave them. -/
def Answers (worlds : World → Prop) (query : StateM World α) (answer : α) : Prop :=
  ∀ world, worlds world → worlds (query.run world).2 ∧ (query.run world).1 = answer

theorem answers_pure (answer : α) : Answers worlds (pure answer) answer :=
  fun _ hworld ↦ ⟨hworld, rfl⟩

theorem Answers.bind {query : StateM World α} {next : α → StateM World β} {first : α} {second : β}
    (hquery : Answers worlds query first) (hnext : Answers worlds (next first) second) :
    Answers worlds (query >>= next) second := by
  intro world hworld
  obtain ⟨hbetween, hfirst⟩ := hquery world hworld
  rw [← hfirst] at hnext
  exact hnext _ hbetween

/-- Throughout `worlds`, two entries stand for the same thing if `alike` says so. -/
structure Access.Discerns (access : Access World Loader) (worlds : World → Prop)
    (alike : Entry Loader → Entry Loader → Bool) : Prop where
  equivalence : Equivalence fun entry other ↦ alike entry other = true
  same : ∀ entry other, Answers worlds (Entry.same access entry other) (alike entry other)

/-- Whether one of `entries` stands for the same thing as `entry`. -/
def Knows (alike : Entry Loader → Entry Loader → Bool) (entries : List (Entry Loader))
    (entry : Entry Loader) : Prop :=
  ∃ known ∈ entries, alike known entry = true

instance (alike : Entry Loader → Entry Loader → Bool) (entries : List (Entry Loader))
    (entry : Entry Loader) : Decidable (Knows alike entries entry) :=
  inferInstanceAs (Decidable (∃ known ∈ entries, alike known entry = true))

/-- No entry stands for the same thing as one in front of it. -/
def Apart (alike : Entry Loader → Entry Loader → Bool) (entries : List (Entry Loader)) : Prop :=
  entries.Pairwise fun known entry ↦ alike known entry = false

variable {access : Access World Loader} {alike : Entry Loader → Entry Loader → Bool}
  {entry : Entry Loader} {entries : List (Entry Loader)} {registry : Registry Loader}

theorem apart_append_singleton_iff :
    Apart alike (entries ++ [entry]) ↔ Apart alike entries ∧ ¬Knows alike entries entry := by
  rw [Apart, List.pairwise_append, Knows]
  constructor
  · rintro ⟨hentries, -, hlast⟩
    refine ⟨hentries, fun ⟨known, hmem, halike⟩ ↦ ?_⟩
    exact absurd halike (Bool.eq_false_iff.mp (hlast known hmem entry List.mem_cons_self))
  · rintro ⟨hentries, hlast⟩
    refine ⟨hentries, List.pairwise_singleton _ _, fun known hmem other hother ↦ ?_⟩
    rw [List.mem_singleton.mp hother, Bool.eq_false_iff]
    exact fun halike ↦ hlast ⟨known, hmem, halike⟩

namespace Registry

/-! ### The search path of a record -/

/-- The search path of a pool that was given all recorded entries. -/
def wholePath (registry : Registry Loader) : List (Entry Loader) :=
  registry.prepended.reverse ++ registry.system ++ registry.appended

@[simp] theorem recorded_add (registry : Registry Loader) (side other : Side)
    (entry : Entry Loader) : (registry.add side entry).recorded other =
      if side = other then registry.recorded other ++ [entry] else registry.recorded other := by
  cases side <;> cases other <;> rfl

@[simp] theorem system_add (registry : Registry Loader) (side : Side) (entry : Entry Loader) :
    (registry.add side entry).system = registry.system := by
  cases side <;> rfl

/-- Recording an entry and putting it on the path come to the same. -/
theorem wholePath_add (registry : Registry Loader) (side : Side) (entry : Entry Loader) :
    (registry.add side entry).wholePath = place side entry registry.wholePath := by
  cases side with
  | front => simp [wholePath, add, place]
  | back => simp [wholePath, add, place]

theorem insertIdx_append_length (front back : List (Entry Loader)) (entry : Entry Loader) :
    (front ++ back).insertIdx front.length entry = front ++ entry :: back := by
  induction front with
  | nil => rfl
  | cons first rest ih =>
    rw [List.cons_append, List.length_cons, List.insertIdx_succ_cons, ih, List.cons_append]

/-- A new entry of the system path has its place behind the prepended entries and the old ones of
the system path. -/
theorem insertIdx_wholePath (registry : Registry Loader) (entry : Entry Loader) :
    registry.wholePath.insertIdx
        (min (registry.prepended.length + registry.system.length) registry.wholePath.length) entry =
      wholePath { registry with system := registry.system ++ [entry] } := by
  let front := registry.prepended.reverse ++ registry.system
  have hlength : registry.prepended.length + registry.system.length = front.length := by
    rw [List.length_append, List.length_reverse]
  have hwhole : registry.wholePath = front ++ registry.appended := rfl
  have hindex : min front.length registry.wholePath.length = front.length :=
    Nat.min_eq_left (List.prefix_append front registry.appended).length_le
  rw [hlength, hindex, hwhole, insertIdx_append_length]
  simp [front, wholePath]

theorem recorded_renew (registry : Registry Loader) (preserve : Bool) (side : Side) :
    (registry.renew preserve).recorded side = if preserve then registry.recorded side else [] := by
  cases preserve <;> cases side <;> rfl

theorem system_renew (registry : Registry Loader) (preserve : Bool) :
    (registry.renew preserve).system = registry.system := by
  cases preserve <;> rfl

/-! ### Recording -/

/-- A record in which nothing is repeated on either side. -/
def Distinct (alike : Entry Loader → Entry Loader → Bool) (registry : Registry Loader) : Prop :=
  ∀ side, Apart alike (registry.recorded side)

theorem Distinct.add (h : registry.Distinct alike) {side : Side}
    (hnew : ¬Knows alike (registry.recorded side) entry) :
    (registry.add side entry).Distinct alike := by
  intro other
  rw [recorded_add]
  by_cases hside : side = other
  · rw [if_pos hside, apart_append_singleton_iff, ← hside]
    exact ⟨h side, hnew⟩
  · rw [if_neg hside]
    exact h other

/-- Records entries in order. -/
def addAll (registry : Registry Loader) (side : Side) (entries : List (Entry Loader)) :
    Registry Loader :=
  entries.foldl (·.add side ·) registry

theorem addAll_front (registry : Registry Loader) (entries : List (Entry Loader)) :
    registry.addAll .front entries =
      { registry with prepended := registry.prepended ++ entries } := by
  induction entries generalizing registry with
  | nil => simp [addAll]
  | cons entry rest ih =>
    refine (ih (registry.add .front entry)).trans ?_
    simp [add]

theorem addAll_back (registry : Registry Loader) (entries : List (Entry Loader)) :
    registry.addAll .back entries = { registry with appended := registry.appended ++ entries } := by
  induction entries generalizing registry with
  | nil => simp [addAll]
  | cons entry rest ih =>
    refine (ih (registry.add .back entry)).trans ?_
    simp [add]

variable (hdiscerns : access.Discerns worlds alike)
include hdiscerns

theorem answers_hasSame (entry : Entry Loader) (entries : List (Entry Loader)) :
    Answers worlds (hasSame access entry entries) (decide (Knows alike entries entry)) := by
  induction entries with
  | nil => exact answers_pure false
  | cons known rest ih =>
    refine (hdiscerns.same known entry).bind ?_
    cases halike : alike known entry with
    | true =>
      rw [decide_eq_true ⟨known, List.mem_cons_self, halike⟩]
      exact answers_pure true
    | false =>
      have hknows : Knows alike (known :: rest) entry ↔ Knows alike rest entry := by
        simp [Knows, halike]
      rw [decide_eq_decide.mpr hknows]
      exact ih

theorem answers_register (side : Side) (entry : Entry Loader) (registry : Registry Loader)
    (path : List (Entry Loader)) :
    Answers worlds (registry.register access side entry path)
      (if Knows alike (registry.recorded side) entry then none
      else some (registry.add side entry, place side entry path)) := by
  refine (answers_hasSame hdiscerns entry _).bind ?_
  by_cases hknown : Knows alike (registry.recorded side) entry
  · rw [if_pos hknown, if_pos (decide_eq_true hknown)]
    exact answers_pure _
  · rw [if_neg hknown, if_neg (by rwa [decide_eq_true_iff])]
    exact answers_pure _

/-- Entries that stand for different things, and for none that is recorded already, are all
recorded. -/
theorem answers_replay (side : Side) (entries : List (Entry Loader)) (registry : Registry Loader)
    (hapart : Apart alike (registry.recorded side ++ entries)) :
    Answers worlds (replay access side entries registry registry.wholePath)
      (registry.addAll side entries, (registry.addAll side entries).wholePath) := by
  induction entries generalizing registry with
  | nil => exact answers_pure _
  | cons entry rest ih =>
    rw [List.append_cons] at hapart
    have hnew : ¬Knows alike (registry.recorded side) entry :=
      (apart_append_singleton_iff.mp (List.pairwise_append.mp hapart).1).2
    have hregister := answers_register hdiscerns side entry registry registry.wholePath
    rw [if_neg hnew, ← wholePath_add] at hregister
    refine hregister.bind (ih (registry.add side entry) ?_)
    rwa [recorded_add, if_pos rfl]

/-- A new pool gets all entries that are recorded, and the record stays as it is. -/
theorem answers_newPath (hdistinct : registry.Distinct alike)
    (hkept : registry.preserve = true ∨ ∀ side, registry.recorded side = []) :
    Answers worlds (registry.newPath access) (registry, registry.wholePath) := by
  rw [newPath]
  by_cases hpreserve : registry.preserve = true
  · rw [if_pos hpreserve]
    let emptied := { registry with prepended := [], appended := [] }
    let half := emptied.addAll .front registry.prepended
    have hsystem : emptied.wholePath = registry.system := by simp [emptied, wholePath]
    have hhalf : half = { registry with appended := [] } := addAll_front _ _
    have hwhole : half.addAll .back registry.appended = registry := by rw [hhalf, addAll_back]; rfl
    have hfront := answers_replay hdiscerns .front registry.prepended emptied (hdistinct .front)
    have hback := answers_replay hdiscerns .back registry.appended half (by
      rw [hhalf]
      exact hdistinct .back)
    rw [hsystem] at hfront
    rw [hwhole] at hback
    exact hfront.bind hback
  · have hempty := hkept.resolve_left hpreserve
    have hwhole : registry.wholePath = registry.system := by
      rw [wholePath, show registry.prepended = [] from hempty .front,
        show registry.appended = [] from hempty .back]
      simp
    rw [if_neg hpreserve, hwhole]
    exact answers_pure _

end Registry

end ClassWeaver.Search
