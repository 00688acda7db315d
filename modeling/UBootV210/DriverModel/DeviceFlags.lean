import UBootV210.DriverModel.Device

/-! # Activating and deactivating

`device_probe` and `device_remove` change nothing but the flags of the devices. -/

namespace UBootV210.DriverModel

/-- Every device is in the list of its parent and in that of its uclass, the lists hold
nothing else, and a parent is older than its children. -/
structure World.Linked (world : World) : Prop where
  allocated : ∀ {id device}, world.devices id = some device → id < world.next
  older : ∀ {id device parent}, world.devices id = some device → device.parent = some parent →
    parent < id
  inParent : ∀ {id device parent}, world.devices id = some device →
    device.parent = some parent → ∃ above, world.devices parent = some above ∧ id ∈ above.children
  child : ∀ {id device child}, world.devices id = some device → child ∈ device.children →
    ∃ below, world.devices child = some below ∧ below.parent = some id
  childrenNodup : ∀ {id device}, world.devices id = some device → device.children.Nodup
  inUclass : ∀ {id device}, world.devices id = some device →
    ∃ list, world.uclasses device.uclass = some list ∧ id ∈ list
  member : ∀ {uclass list id}, world.uclasses uclass = some list → id ∈ list →
    ∃ device, world.devices id = some device ∧ device.uclass = uclass
  uclassNodup : ∀ {uclass list}, world.uclasses uclass = some list → list.Nodup

inductive World.Below (world : World) (id : Nat) : Nat → Prop
  | self : Below world id id
  | child {other device parent} : world.devices other = some device →
      device.parent = some parent → Below world id parent → Below world id other

theorem World.Below.le {world : World} (linked : world.Linked) {id other : Nat}
    (below : world.Below id other) : id ≤ other := by
  induction below with
  | self => exact Nat.le_refl id
  | child found parent _ induction => exact induction.trans (linked.older found parent).le

theorem World.Below.trans {world : World} {id middle other : Nat} (upper : world.Below id middle)
    (lower : world.Below middle other) : world.Below id other := by
  induction lower with
  | self => exact upper
  | child found parent _ induction => exact .child found parent induction

def World.flagged (world : World) (flags : Nat → Bool) : World :=
  { world with devices := fun id =>
      (world.devices id).map fun device => { device with activated := flags id } }

def World.active (world : World) (id : Nat) : Bool :=
  ((world.devices id).map Device.activated).getD false

def World.ClosedUnder (world : World) (flags : Nat → Bool) : Prop :=
  ∀ {id device parent}, world.devices id = some device → device.parent = some parent →
    flags id = true → flags parent = true

section

variable {world : World} {flags : Nat → Bool} {id : Nat} {device : Device}

theorem World.flagged_active (world : World) : world.flagged world.active = world := by
  cases world with
  | mk devices uclasses next =>
    simp only [flagged, active, World.mk.injEq, and_self, and_true]
    funext id
    cases devices id with
    | none => rfl
    | some device => rfl

theorem World.device_eq (found : world.devices id = some device) :
    world.device id = .ok device := by
  rw [World.device, found]

theorem World.flagged_device (found : world.devices id = some device) (flags : Nat → Bool) :
    (world.flagged flags).device id = .ok { device with activated := flags id } := by
  apply World.device_eq
  simp [flagged, found]

theorem World.flagged_setDevice (found : world.devices id = some device) (flags : Nat → Bool)
    (flag : Bool) :
    (world.flagged flags).setDevice id { device with activated := flag } =
      world.flagged (Function.update flags id flag) := by
  simp only [setDevice, flagged, World.mk.injEq, and_self, and_true]
  funext other
  by_cases same : other = id
  · subst same
    simp [found]
  · simp [Function.update_of_ne same]

end

/-! ## `device_remove` -/

section

variable {world : World} {answers : Answers}

/-- A removal keeps the flags closed and sets none; what it reports to have removed, it has
removed. -/
structure Removes (world : World) (flags next : Nat → Bool) : Prop where
  closed : world.ClosedUnder next
  cleared : ∀ id, next id = true → flags id = true

theorem deviceChldRemove_spec {remove : Nat → World → Exec (Int × World)} {children : List Nat}
    {flags : Nat → Bool} {Failing : Nat → Prop} (closed : world.ClosedUnder flags)
    (spec : ∀ child ∈ children, ∀ flags, world.ClosedUnder flags → ∃ ret next,
      remove child (world.flagged flags) = .ok (ret, world.flagged next) ∧
        Removes world flags next ∧ (ret = 0 → next child = false) ∧ (ret ≠ 0 → Failing child)) :
    ∃ ret next, deviceChldRemove remove children (world.flagged flags) =
        .ok (ret, world.flagged next) ∧
      Removes world flags next ∧ (ret = 0 → ∀ child ∈ children, next child = false) ∧
      (ret ≠ 0 → ∃ child ∈ children, Failing child) := by
  induction children generalizing flags with
  | nil =>
    refine ⟨0, flags, rfl, ⟨closed, fun _ set => set⟩, ?_, fun failed => absurd rfl failed⟩
    intro _ child member
    cases member
  | cons child children induction =>
    obtain ⟨ret, next, removed, removes, gone, fails⟩ :=
      spec child List.mem_cons_self flags closed
    rw [deviceChldRemove, removed, Exec.ok_bind]
    dsimp only
    split
    case isTrue failed =>
      exact ⟨ret, next, rfl, removes, fun zero => absurd zero failed,
        fun _ => ⟨child, List.mem_cons_self, fails failed⟩⟩
    case isFalse success =>
      obtain ⟨ret', last, rest, removes', gone', fails'⟩ := induction removes.closed
        fun other member => spec other (List.mem_cons_of_mem _ member)
      refine ⟨ret', last, rest, ⟨removes'.closed, ?_⟩, ?_, ?_⟩
      · intro id set
        exact removes.cleared id (removes'.cleared id set)
      · intro zero other member
        rcases List.mem_cons.mp member with first | later
        · subst first
          by_contra set
          rw [Bool.not_eq_false] at set
          have early := removes'.cleared other set
          rw [gone (not_not.mp success)] at early
          cases early
        · exact gone' zero other later
      · intro failed
        obtain ⟨other, member, failing⟩ := fails' failed
        exact ⟨other, List.mem_cons_of_mem _ member, failing⟩

/-- A callback under the device reports an error when it is removed. -/
def World.Failing (world : World) (answers : Answers) (id : Nat) : Prop :=
  ∃ other, world.Below id other ∧ (answers .remove other ≠ 0 ∨ answers .preRemove other ≠ 0)

/-- No error of a removal is taken for a success: where `post_probe` puts back a device
that is removed with its parent, none of the callbacks before it has failed. -/
def World.KeepsErrors (world : World) (answers : Answers) (top : Nat) : Prop :=
  ∀ id other, id ≠ top → answers (.postProbe true) id = 0 → world.Below id other →
    answers .remove other = 0 ∧ (other ≠ id → answers .preRemove other = 0)

-- The induction is on the fuel; the children of a device are younger.
theorem deviceRemove_spec (linked : world.Linked) {top fuel id : Nat} {device : Device}
    {flags : Nat → Bool} (errors : world.KeepsErrors answers top)
    (found : world.devices id = some device) (below : top ≤ id)
    (enough : world.next < fuel + id) (closed : world.ClosedUnder flags) :
    ∃ ret next, deviceRemove answers fuel id (world.flagged flags) = .ok (ret, world.flagged next) ∧
      Removes world flags next ∧ (id ≠ top → ret = 0 → next id = false) ∧
      (ret ≠ 0 → world.Failing answers id) := by
  induction fuel generalizing id device flags with
  | zero =>
    have young := linked.allocated found
    omega
  | succ fuel induction =>
    have unchanged : Removes world flags flags := ⟨closed, fun _ set => set⟩
    rw [deviceRemove, World.flagged_device found, Exec.ok_bind]
    cases active : flags id with
    | false =>
      exact ⟨0, flags, rfl, unchanged, fun _ _ => active, fun failed => absurd rfl failed⟩
    | true =>
      simp only [Bool.not_true, Bool.false_eq_true, if_false]
      split
      case isTrue failed =>
        exact ⟨_, flags, rfl, unchanged, fun _ zero => absurd zero failed,
          fun _ => ⟨id, .self, .inr failed⟩⟩
      case isFalse =>
        obtain ⟨ret, next, removed, removes, gone, fails⟩ :=
          @deviceChldRemove_spec world (deviceRemove answers fuel) device.children flags
            (world.Failing answers) closed
            (by
              intro child member flags closed
              obtain ⟨childDevice, childFound, parent⟩ := linked.child found member
              have younger := linked.older childFound parent
              obtain ⟨ret, next, removed, removes, gone, fails⟩ :=
                induction childFound (by omega) (by omega) closed
              exact ⟨ret, next, removed, removes, gone (by omega), fails⟩)
        rw [removed, Exec.ok_bind]
        dsimp only
        split
        case isTrue failed =>
          obtain ⟨child, member, other, lower, failing⟩ := fails failed
          obtain ⟨childDevice, childFound, parent⟩ := linked.child found member
          have upper : world.Below id child := .child childFound parent .self
          refine ⟨_, next, rfl, removes, ?_, fun _ => ⟨other, upper.trans lower, failing⟩⟩
          intro notTop zero
          have younger := linked.older childFound parent
          have lowest := lower.le linked
          obtain ⟨removed, preRemoved⟩ := errors id other notTop zero (upper.trans lower)
          rcases failing with failing | failing
          · exact absurd removed failing
          · exact absurd (preRemoved (by omega)) failing
        case isFalse success =>
          split
          case isTrue failed =>
            refine ⟨_, next, rfl, removes, ?_, fun _ => ⟨id, .self, .inl failed⟩⟩
            intro notTop zero
            exact absurd (errors id id notTop zero .self).1 failed
          · refine ⟨0, Function.update next id false, ?_, ⟨?_, ?_⟩, ?_,
              fun failed => absurd rfl failed⟩
            · rw [World.flagged_device found, Exec.ok_bind]
              dsimp only
              rw [World.flagged_setDevice found]
              rfl
            · intro other otherDevice parent otherFound otherParent set
              by_cases same : other = id
              · subst same
                rw [Function.update_self] at set
                cases set
              · rw [Function.update_of_ne same] at set
                by_cases above : parent = id
                · subst above
                  obtain ⟨parentDevice, parentFound, member⟩ :=
                    linked.inParent otherFound otherParent
                  rw [found] at parentFound
                  cases parentFound
                  rw [gone (not_not.mp success) other member] at set
                  cases set
                · rw [Function.update_of_ne above]
                  exact removes.closed otherFound otherParent set
            · intro other set
              by_cases same : other = id
              · subst same
                exact active
              · rw [Function.update_of_ne same] at set
                exact removes.cleared other set
            · intro _ _
              exact Function.update_self ..

end

/-! ## `device_probe` -/

section

variable {world : World} {answers : Answers}

/-- A probe keeps the flags closed and clears none, and it leaves younger devices alone. -/
structure Probes (world : World) (id : Nat) (flags next : Nat → Bool) : Prop where
  closed : world.ClosedUnder next
  kept : ∀ other, id < other → next other = flags other

theorem deviceProbe_spec (linked : world.Linked) {fuel id : Nat} {device : Device}
    {flags : Nat → Bool} (found : world.devices id = some device) (enough : id < fuel)
    (closed : world.ClosedUnder flags) :
    ∃ ret next, deviceProbe answers fuel id (world.flagged flags) = .ok (ret, world.flagged next) ∧
      Probes world id flags next ∧ (ret = 0 → next id = true) := by
  induction fuel generalizing id device flags with
  | zero => omega
  | succ fuel induction =>
    have unchanged : Probes world id flags flags := ⟨closed, fun _ _ => rfl⟩
    rw [deviceProbe, World.flagged_device found, Exec.ok_bind]
    cases active : flags id with
    | true => exact ⟨0, flags, rfl, unchanged, fun _ => active⟩
    | false =>
      simp only [Bool.false_eq_true, if_false]
      split
      · exact ⟨_, flags, rfl, unchanged, fun zero => absurd zero (by decide)⟩
      -- The parents are activated first.
      have parents : ∃ ret next, probeParent (deviceProbe answers fuel) device.parent
          (world.flagged flags) = .ok (ret, world.flagged next) ∧ world.ClosedUnder next ∧
          (∀ other, id ≤ other → next other = flags other) ∧
          (ret = 0 → ∀ parent, device.parent = some parent → next parent = true) := by
        cases above : device.parent with
        | none =>
          refine ⟨0, flags, rfl, closed, fun _ _ => rfl, ?_⟩
          intro _ parent some
          cases some
        | some parent =>
          have older := linked.older found above
          obtain ⟨parentDevice, parentFound, _⟩ := linked.inParent found above
          obtain ⟨ret, next, probed, probes, set⟩ :=
            induction parentFound (by omega) closed
          refine ⟨ret, next, probed, probes.closed, ?_, ?_⟩
          · intro other younger
            exact probes.kept other (by omega)
          · intro zero other same
            cases same
            exact set zero
      obtain ⟨ret, next, probed, closed', kept, above⟩ := parents
      have probes : Probes world id flags next :=
        ⟨closed', fun other younger => kept other younger.le⟩
      rw [probed, Exec.ok_bind]
      dsimp only
      split
      case isTrue failed => exact ⟨ret, next, rfl, probes, fun zero => absurd zero failed⟩
      case isFalse success =>
        split
        case isTrue failed => exact ⟨_, next, rfl, probes, fun zero => absurd zero failed⟩
        split
        case isTrue failed => exact ⟨_, next, rfl, probes, fun zero => absurd zero failed⟩
        rw [World.flagged_device found, Exec.ok_bind]
        dsimp only
        rw [World.flagged_setDevice found, World.flagged_setDevice found, Function.update_idem]
        split
        case isTrue failed =>
          have cleared : Function.update next id false = next := by
            rw [Function.update_eq_self_iff, kept id (Nat.le_refl id), active]
          rw [cleared, deviceRemove, World.flagged_device found, Exec.ok_bind,
            kept id (Nat.le_refl id), active]
          exact ⟨_, next, rfl, probes, fun zero => absurd zero failed⟩
        · refine ⟨0, Function.update next id true, rfl, ⟨?_, ?_⟩, ?_⟩
          · intro other otherDevice parent otherFound otherParent set
            by_cases same : parent = id
            · subst same
              exact Function.update_self ..
            · rw [Function.update_of_ne same]
              by_cases this : other = id
              · subst this
                rw [found] at otherFound
                cases otherFound
                exact above (not_not.mp success) parent otherParent
              · rw [Function.update_of_ne this] at set
                exact closed' otherFound otherParent set
          · intro other younger
            rw [Function.update_of_ne (by omega), kept other younger.le]
          · intro _
            exact Function.update_self ..

end

end UBootV210.DriverModel
