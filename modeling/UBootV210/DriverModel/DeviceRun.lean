import UBootV210.DriverModel.DeviceLinks
import UBootV210.Foundation.Run

/-! # Runs of the driver model

An active device has an active parent after every call, as long as the error of a child
that cannot be removed is not lost on its way up and a device that is not bound after all
is given back by its uclass. -/

namespace UBootV210.DriverModel

/-- Every active device has an active parent, if it has one, and is in the lists of both
its parent and its uclass. -/
def World.ParentClosed (world : World) : Prop :=
  ∀ id device, world.devices id = some device → device.activated = true →
    (∀ parent, device.parent = some parent → ∃ above, world.devices parent = some above ∧
      above.activated = true ∧ id ∈ above.children) ∧
    ∃ list, world.uclasses device.uclass = some list ∧ id ∈ list

/-- What the callbacks of a call return does not run into the two error paths that go wrong. -/
def Event.Sound (event : Event) (world : World) : Prop :=
  match event.call with
  | .bind _ _ _ =>
      event.answers .bind world.next ≠ 0 → event.answers (.preUnbind true) world.next = 0
  | .remove (some id) => world.KeepsErrors event.answers id
  | .remove none | .probe _ | .unbind _ => True

section

variable {world : World} {flags : Nat → Bool}

theorem World.flagged_devices {id : Nat} {device : Device}
    (found : (world.flagged flags).devices id = some device) : ∃ before,
      world.devices id = some before ∧ device = { before with activated := flags id } := by
  obtain ⟨before, there, same⟩ := Option.map_eq_some_iff.mp found
  exact ⟨before, there, same.symm⟩

theorem World.flagged_eq_some {id : Nat} {device : Device}
    (found : world.devices id = some device) :
    (world.flagged flags).devices id = some { device with activated := flags id } := by
  simp [World.flagged, found]

theorem World.Linked.flagged (linked : world.Linked) (flags : Nat → Bool) :
    (world.flagged flags).Linked where
  allocated := by
    intro id device found
    obtain ⟨before, there, rfl⟩ := World.flagged_devices found
    exact linked.allocated there
  older := by
    intro id device parent found above
    obtain ⟨before, there, rfl⟩ := World.flagged_devices found
    exact linked.older there above
  inParent := by
    intro id device parent found above
    obtain ⟨before, there, rfl⟩ := World.flagged_devices found
    obtain ⟨parentDevice, parentFound, listed⟩ := linked.inParent there above
    exact ⟨_, World.flagged_eq_some parentFound, listed⟩
  child := by
    intro id device child found member
    obtain ⟨before, there, rfl⟩ := World.flagged_devices found
    obtain ⟨below, belowFound, parent⟩ := linked.child there member
    exact ⟨_, World.flagged_eq_some belowFound, parent⟩
  childrenNodup := by
    intro id device found
    obtain ⟨before, there, rfl⟩ := World.flagged_devices found
    have nodup := linked.childrenNodup there
    exact nodup
  inUclass := by
    intro id device found
    obtain ⟨before, there, rfl⟩ := World.flagged_devices found
    have listed := linked.inUclass there
    exact listed
  member := by
    intro uclass list id listed member
    obtain ⟨device, found, theirs⟩ := linked.member listed member
    exact ⟨_, World.flagged_eq_some found, theirs⟩
  uclassNodup := linked.uclassNodup

theorem World.Linked.closed_flagged (linked : world.Linked) (closed : world.ClosedUnder flags) :
    (world.flagged flags).Closed := by
  intro id device parent found above set
  rw [World.active_eq found] at set
  obtain ⟨before, there, rfl⟩ := World.flagged_devices found
  obtain ⟨parentDevice, parentFound, _⟩ := linked.inParent there above
  rw [World.active_eq (World.flagged_eq_some parentFound)]
  exact closed there above set

theorem World.Linked.parentClosed (linked : world.Linked) (closed : world.Closed) :
    world.ParentClosed := by
  intro id device found set
  refine ⟨?_, linked.inUclass found⟩
  intro parent above
  obtain ⟨parentDevice, parentFound, listed⟩ := linked.inParent found above
  have parentSet := closed found above ((World.active_eq found).trans set)
  rw [World.active_eq parentFound] at parentSet
  exact ⟨parentDevice, parentFound, parentSet, listed⟩

theorem Event.run_spec {event : Event} (linked : world.Linked) (closed : world.Closed)
    (names : event.call.Names world) (sound : event.Sound world) :
    ∃ ret next, event.call.run event.answers world = .ok (ret, next) ∧ next.Linked ∧
      next.Closed := by
  obtain ⟨call, answers⟩ := event
  cases call with
  | bind parent uclass named => exact deviceBind_spec linked closed names sound
  | probe id =>
    cases id with
    | none => exact ⟨_, world, rfl, linked, closed⟩
    | some id =>
      obtain ⟨device, found⟩ := Option.ne_none_iff_exists'.mp (names id rfl)
      have enough : id < world.next + 1 := Nat.lt_succ_of_lt (linked.allocated found)
      obtain ⟨ret, next, probed, probes, _⟩ :=
        @deviceProbe_spec world answers linked _ id device world.active found enough closed
      rw [World.flagged_active] at probed
      exact ⟨ret, _, probed, linked.flagged next, linked.closed_flagged probes.closed⟩
  | remove id =>
    cases id with
    | none => exact ⟨_, world, rfl, linked, closed⟩
    | some id =>
      obtain ⟨device, found⟩ := Option.ne_none_iff_exists'.mp (names id rfl)
      obtain ⟨ret, next, removed, removes, _⟩ :=
        @deviceRemove_spec world answers linked id (world.next + 1) id device world.active
          sound found (Nat.le_refl id) (by omega) closed
      rw [World.flagged_active] at removed
      exact ⟨ret, _, removed, linked.flagged next, linked.closed_flagged removes.closed⟩
  | unbind id =>
    cases id with
    | none => exact ⟨_, world, rfl, linked, closed⟩
    | some id =>
      obtain ⟨device, found⟩ := Option.ne_none_iff_exists'.mp (names id rfl)
      obtain ⟨ret, next, unbound, unbinds, _⟩ :=
        @deviceUnbind_spec world id device answers (world.next + 1) linked found (by omega)
      exact ⟨ret, next, unbound, unbinds.linked, unbinds.closed closed⟩

end

theorem World.linked_empty : World.empty.Linked := by
  constructor <;> intros <;> contradiction

theorem World.closed_empty : World.empty.Closed := by
  intro id device parent found
  cases found

theorem Step.kept {first next : World} (step : Step first event next)
    (sound : event.Sound first) (kept : first.Linked ∧ first.Closed) :
    next.Linked ∧ next.Closed := by
  obtain ⟨names, ret, returned⟩ := step
  obtain ⟨ret', next', returned', linked, closed⟩ := event.run_spec kept.1 kept.2 names sound
  rw [returned] at returned'
  cases returned'
  exact ⟨linked, closed⟩

/-- In every state of a run the active devices are closed under parents, and the next call
returns. -/
theorem parentClosed_of_run {events : List Event} {world : World}
    (run : Run (fun world event next => Step world event next ∧ event.Sound world)
      World.empty events world) :
    world.ParentClosed ∧ ∀ event : Event, event.call.Names world → event.Sound world →
      ∃ ret next, event.call.run event.answers world = .ok (ret, next) ∧ next.ParentClosed := by
  have kept : world.Linked ∧ world.Closed :=
    run.invariant (fun step kept => step.1.kept step.2 kept)
      ⟨World.linked_empty, World.closed_empty⟩
  refine ⟨kept.1.parentClosed kept.2, ?_⟩
  intro event names sound
  obtain ⟨ret, next, returned, linked, closed⟩ := event.run_spec kept.1 kept.2 names sound
  exact ⟨ret, next, returned, linked.parentClosed closed⟩

/-! ## A child that cannot be removed -/

/-- The driver of device 1 does not let go of it; `post_probe` of its uclass puts it back
and returns `restored`. -/
def childStays (restored : Int) : Answers := fun callback id =>
  if id = 1 then
    match callback with
    | .remove => -5
    | .postProbe true => restored
    | _ => 0
  else
    0

def removeParent (restored : Int) : List Event :=
  [⟨.bind none 0 true, fun _ _ => 0⟩, ⟨.bind (some 0) 0 true, fun _ _ => 0⟩,
    ⟨.probe (some 1), fun _ _ => 0⟩, ⟨.remove (some 0), childStays restored⟩]

theorem names_some {world : World} (found : world.devices target = some device) :
    ∀ id, some target = some id → world.devices id ≠ none := by
  rintro id ⟨⟩
  rw [found]
  exact Option.some_ne_none device

-- An error that `post_probe` returns is kept.
theorem removeParent_sound : ∃ world,
    Run (fun world event next => Step world event next ∧ event.Sound world)
      World.empty (removeParent (-7)) world ∧
    world.devices 1 = some ⟨some 0, 0, true, []⟩ := by
  refine ⟨_, .cons ⟨⟨nofun, 0, rfl⟩, ?_⟩ (.cons ⟨⟨names_some rfl, 0, rfl⟩, ?_⟩
    (.cons ⟨⟨names_some rfl, 0, rfl⟩, trivial⟩ (.cons ⟨⟨names_some rfl, 0, rfl⟩, ?_⟩ (.nil _)))),
    rfl⟩
  · intro failed
    exact absurd rfl failed
  · intro failed
    exact absurd rfl failed
  · intro id other notTop zero below
    have notChild : id ≠ 1 := by
      rintro rfl
      cases zero
    -- Nothing but the two devices is above device 1.
    have another : other ≠ 1 := by
      rintro rfl
      cases below with
      | self => exact notChild rfl
      | @child _ device parent found above up =>
        have child : (⟨some 0, 0, true, []⟩ : Device) = device := Option.some.inj found
        rw [← child] at above
        cases above
        cases up with
        | self => exact notTop rfl
        | @child _ device parent found above up =>
          have top : (⟨none, 0, true, [1]⟩ : Device) = device := Option.some.inj found
          rw [← top] at above
          cases above
    simp [childStays, another]

theorem parentClosed_of_run_child_stays : ∃ world,
    Run (fun world event next => Step world event next ∧ event.Sound world)
      World.empty (removeParent (-7)) world ∧
    world.devices 1 = some ⟨some 0, 0, true, []⟩ ∧ world.ParentClosed := by
  obtain ⟨world, run, stays⟩ := removeParent_sound
  exact ⟨world, run, stays, (parentClosed_of_run run).1⟩

theorem removeParent_leaves_child : ∃ world, Run Step World.empty (removeParent 0) world ∧
    ¬ world.ParentClosed := by
  refine ⟨_, .cons ⟨nofun, 0, rfl⟩ (.cons ⟨names_some rfl, 0, rfl⟩ (.cons ⟨names_some rfl, 0, rfl⟩
    (.cons ⟨names_some rfl, 0, rfl⟩ (.nil _)))), ?_⟩
  intro closed
  obtain ⟨above, aboveFound, set, _⟩ := (closed 1 ⟨some 0, 0, true, []⟩ rfl rfl).1 0 rfl
  have found : (⟨none, 0, false, [1]⟩ : Device) = above := Option.some.inj aboveFound
  rw [← found] at set
  cases set

end UBootV210.DriverModel
